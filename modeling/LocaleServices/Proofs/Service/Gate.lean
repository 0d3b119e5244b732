import LocaleServices.Proofs.Locale.Key
import LocaleServices.Proofs.Service.Resolving

/-!
  The gate in front of candidates, over name tables.

  Two tests decide whether adapters are asked on behalf of a candidate: it has to be
  available, which compares it with the keys of declared locales, and an adapter has to serve
  it, which compares base fields. They agree for every candidate when no declared locale is
  astray. Main statement: they differ exactly where the key of a respelled locale, or of one
  that loses its script, is a candidate that nobody declares, and where a candidate is
  declared astray and is nobody's key (`Pool.gate_differs_iff`). Both happen
  (`Pool.gate_differs`).
-/

namespace LocaleServices

/-! ## Tables of built locales -/

/-- The tables that declaring locales and entering names produce. -/
inductive NameTable.Built : NameTable → Prop
  | empty : Built .empty
  | declare {t : NameTable} {l : Locale} : Built t → l.Built → Built (t.declare l)
  | enter {t : NameTable} {l : Locale} (key name : String) :
      Built t → l.Built → Built (t.enter l key name)

theorem NameTable.Built.locale {t : NameTable} (h : t.Built) {m : Locale}
    (hm : m ∈ t.locales) : m.Built := by
  induction h with
  | empty => cases hm
  | declare _ hl ih =>
    rcases mem_locales_declare.mp hm with hm | rfl
    · exact ih hm
    · exact hl
  | enter key name _ hl ih =>
    have hm' : m ∈ (NameTable.declare _ _).locales := hm
    rcases mem_locales_declare.mp hm' with hm | rfl
    · exact ih hm
    · exact hl

variable {σ δ : Type}

/-- Whether an adapter is over a table of built locales. -/
def Adapter.IsOfTable (a : Adapter σ (Option NameTable)) : Prop :=
  ∃ (t : NameTable) (label : String), t.Built ∧ a = t.toAdapter label

/-- A source all of whose adapters are of that sort. -/
def Source.IsOfTables (src : Source σ (Option NameTable)) : Prop :=
  ∀ a, src.HandsOut a → a.IsOfTable

theorem Source.IsOfTables.isSteady {src : Source σ (Option NameTable)} (h : src.IsOfTables) :
    src.IsSteady := by
  intro a ha
  obtain ⟨t, label, _, rfl⟩ := h a ha
  exact t.isSteady_toAdapter label

/-! ## Keys and base fields -/

namespace Locale

variable {m d : Locale}

/-- Off the astray locales a candidate is the key exactly if it has the base fields. -/
theorem IsUsual.availabilityKey_eq_iff (hm : m.IsUsual) (ha : ¬ m.IsAstray)
    (hd : d.rebuilt = d) : m.availabilityKey = d ↔ m.bare = d.bare := by
  rw [(availabilityKey_eq_rebuilt_iff hm).mpr ha]
  constructor
  · intro h
    rw [← h, hm.bare_rebuilt]
  · intro h
    rw [rebuilt_congr h, hd]

/-- A candidate that is the key of an astray locale has other base fields. -/
theorem IsAstray.bare_ne (ha : m.IsAstray) (hm : m.IsUsual) (hd : d.rebuilt = d)
    (hk : m.availabilityKey = d) : m.bare ≠ d.bare := by
  intro hb
  refine (availabilityKey_eq_rebuilt_iff hm).mp ?_ ha
  rw [hk, rebuilt_congr hb, hd]

/-- Irregular fields without their marker are the key of no candidate. -/
theorem LacksMarker.availabilityKey_ne (hl : m.LacksMarker) (hm : m.IsUsual)
    (hd : d.rebuilt = d) : m.availabilityKey ≠ d := by
  intro hk
  refine IsAstray.bare_ne (Or.inl hl) hm hd hk ?_
  rw [← hk, availabilityKey_of_not_hasExtensions hl.1]

/-- A candidate without base fields is the root. -/
theorem bare_ne_root (hd : d.rebuilt = d) (hne : d ≠ root) : d.bare ≠ root := by
  intro hb
  have hr : d.bare = root.bare := hb.trans (by decide)
  exact hne (hd.symm.trans ((rebuilt_congr hr).trans (by decide)))

section Differences

variable {D : Locale → Prop}

/-- A key without the base fields of a declared locale comes from one that is respelled or
    loses its script. -/
theorem key_without_bare_iff (hD : ∀ m, D m → m.IsUsual) (hd : d.rebuilt = d) :
    ((∃ m, D m ∧ m.availabilityKey = d) ∧ ¬ ∃ m, D m ∧ m.bare = d.bare) ↔
      (∃ m, D m ∧ (m.IsRespelled ∨ m.LosesScript) ∧ m.availabilityKey = d) ∧
        ∀ m, D m → m.bare ≠ d.bare := by
  constructor
  · rintro ⟨⟨m, hm, hk⟩, hnot⟩
    have hnone : ∀ m, D m → m.bare ≠ d.bare := fun m hm hb => hnot ⟨m, hm, hb⟩
    have hastray : m.IsAstray := Classical.not_not.mp fun ha =>
      hnone m hm (((hD m hm).availabilityKey_eq_iff ha hd).mp hk)
    have hsort := hastray.resolve_left fun hl => hl.availabilityKey_ne (hD m hm) hd hk
    exact ⟨⟨m, hm, hsort, hk⟩, hnone⟩
  · rintro ⟨⟨m, hm, _, hk⟩, hnone⟩
    exact ⟨⟨m, hm, hk⟩, fun ⟨m', hm', hb⟩ => hnone m' hm' hb⟩

/-- Base fields of declared locales that are nobody's key are those of astray locales. -/
theorem bare_without_key_iff (hD : ∀ m, D m → m.IsUsual) (hd : d.rebuilt = d) :
    ((¬ ∃ m, D m ∧ m.availabilityKey = d) ∧ ∃ m, D m ∧ m.bare = d.bare) ↔
      (∃ m, D m ∧ m.IsAstray ∧ m.bare = d.bare) ∧ ∀ m, D m → m.availabilityKey ≠ d := by
  constructor
  · rintro ⟨hnot, m, hm, hb⟩
    have hnone : ∀ m, D m → m.availabilityKey ≠ d := fun m hm hk => hnot ⟨m, hm, hk⟩
    have hastray : m.IsAstray := Classical.not_not.mp fun ha =>
      hnone m hm (((hD m hm).availabilityKey_eq_iff ha hd).mpr hb)
    exact ⟨⟨m, hm, hastray, hb⟩, hnone⟩
  · rintro ⟨⟨m, hm, _, hb⟩, hnone⟩
    exact ⟨fun ⟨m', hm', hk⟩ => hnone m' hm' hk, m, hm, hb⟩

end Differences

end Locale

/-! ## The two tests -/

namespace Roster

/-- The locales that registered adapters list. -/
def Declares (u : Roster σ δ) (w : σ) (m : Locale) : Prop :=
  ∃ e ∈ u.entries, m ∈ (e.2.listing w).1

theorem lists_iff_declares {u : Roster σ δ} {w : σ} {d : Locale} :
    u.lists w d = true ↔ ∃ m, u.Declares w m ∧ m.availabilityKey = d := by
  rw [lists_iff]
  constructor
  · rintro ⟨e, he, m, hm, hk⟩
    exact ⟨m, ⟨e, he, hm⟩, hk⟩
  · rintro ⟨m, ⟨e, he, hm⟩, hk⟩
    exact ⟨e, he, m, hm, hk⟩

/-- Adapters over tables serve what has the base fields of a declared locale. -/
theorem serving_ne_nil_iff {u : Roster σ (Option NameTable)}
    (hu : ∀ e ∈ u.entries, e.2.IsOfTable) (w : σ) {d : Locale} (hd : d.bare ≠ .root) :
    (u.serving w d).map Prod.fst ≠ [] ↔ ∃ m, u.Declares w m ∧ m.bare = d.bare := by
  rw [Ne, List.map_eq_nil_iff]
  constructor
  · intro hne
    obtain ⟨e, he⟩ := List.exists_mem_of_ne_nil _ hne
    obtain ⟨he, hs⟩ := List.mem_filter.mp he
    obtain ⟨t, label, _, ht⟩ := hu e he
    rw [ht, NameTable.serves_toAdapter] at hs
    obtain ⟨m, hm, hb⟩ := (Locale.isCoveredBy_iff.mp hs).resolve_left hd
    refine ⟨m, ⟨e, he, ?_⟩, hb⟩
    rw [ht, NameTable.listing_toAdapter]
    exact hm
  · rintro ⟨m, ⟨e, he, hm⟩, hb⟩
    obtain ⟨t, label, _, ht⟩ := hu e he
    refine List.ne_nil_of_mem (List.mem_filter.mpr ⟨he, ?_⟩)
    rw [ht, NameTable.listing_toAdapter] at hm
    rw [ht, NameTable.serves_toAdapter]
    exact Locale.isCoveredBy_iff.mpr (Or.inr ⟨m, hm, hb⟩)

theorem built_of_declares {u : Roster σ (Option NameTable)}
    (hu : ∀ e ∈ u.entries, e.2.IsOfTable) {w : σ} {m : Locale} (hm : u.Declares w m) :
    m.Built := by
  obtain ⟨e, he, hm⟩ := hm
  obtain ⟨t, label, ht, ha⟩ := hu e he
  rw [ha, NameTable.listing_toAdapter] at hm
  exact ht.locale hm

end Roster

/-- Over name tables a candidate is available exactly if some kind serves it, when no
    declared locale is astray. In general it can be available and not served, as the key of a
    respelled locale or of one that loses its script, when nobody declares its base fields;
    and it can be served and not available, when it is declared astray and is nobody's key. -/
theorem Pool.gate_differs_iff {src : Source σ (Option NameTable)} (hsrc : src.IsOfTables)
    {p : Pool src} (hp : p.Reachable) (w : σ) (c : Category) {l d : Locale}
    (hd : d ∈ l.candidates) (hne : d ≠ .root) :
    let declares := (p.registry c).1.roster.Declares w
    let available := (p.availableLocales c).1
    let kinds := (p.kindsFor c d).1
    ((∀ m, declares m → ¬ m.IsAstray) → (d ∈ available ↔ kinds ≠ [])) ∧
    ((d ∈ available ∧ kinds = []) ↔
      (∃ m, declares m ∧ (m.IsRespelled ∨ m.LosesScript) ∧ m.availabilityKey = d) ∧
        ∀ m, declares m → m.bare ≠ d.bare) ∧
    ((d ∉ available ∧ kinds ≠ []) ↔
      (∃ m, declares m ∧ m.IsAstray ∧ m.bare = d.bare) ∧
        ∀ m, declares m → m.availabilityKey ≠ d) := by
  intro declares available kinds
  have htables : ∀ e ∈ (p.registry c).1.roster.entries, e.2.IsOfTable := fun e he =>
    hsrc e.2 ((hp.offers c).handsOut he)
  have husual : ∀ m, declares m → m.IsUsual := fun m hm =>
    (Roster.built_of_declares htables hm).isUsual
  have hrebuilt : d.rebuilt = d := Locale.rebuilt_of_mem_candidates hd
  have havailable : d ∈ available ↔ ∃ m, declares m ∧ m.availabilityKey = d := by
    rw [hp.mem_availableLocales hsrc.isSteady w, Roster.lists_iff_declares]
    exact and_iff_right hne
  have hkinds : kinds ≠ [] ↔ ∃ m, declares m ∧ m.bare = d.bare := by
    rw [← Roster.serving_ne_nil_iff htables w (Locale.bare_ne_root hrebuilt hne),
      ← hp.kindsFor_eq hsrc.isSteady w c d]
  refine ⟨?_, ?_, ?_⟩
  · intro hnone
    rw [havailable, hkinds]
    refine exists_congr fun m => and_congr_right fun hm => ?_
    exact (husual m hm).availabilityKey_eq_iff (hnone m hm) hrebuilt
  · rw [← Locale.key_without_bare_iff husual hrebuilt, havailable, ← hkinds, Ne,
      Classical.not_not]
  · rw [← Locale.bare_without_key_iff husual hrebuilt, havailable, hkinds]

/-! ## A table that declares one locale -/

/-- A catalog with one table, as the built-in adapter for names of locales. -/
def NameTable.catalog (t : NameTable) : Catalog Unit (Option NameTable) :=
  (Catalog.empty [.builtin]).register .builtin .localeName (t.toAdapter "names")

theorem NameTable.Built.isOfTables {t : NameTable} (h : t.Built) :
    (t.catalog.toSource 0).IsOfTables := by
  have ht : (t.toAdapter "names" : Adapter Unit _).IsOfTable := ⟨t, "names", h, rfl⟩
  intro a ha
  exact ((Catalog.all_empty [.builtin]).register ht _ _).of_handsOut ha

/-- Japanese with its calendar and a further extension. -/
def Demo.extendedJapanese : Locale := Locale.japaneseCalendar.withExtension 'x' "foo"

/-- The modern spelling of a declared locale is available and not served, and the marked
    form of a stripped one is served and not available. -/
theorem Pool.gate_differs :
    let extended := Pool.fresh
      ((NameTable.empty.declare Demo.extendedJapanese).catalog.toSource 0) ()
    let stripped := Pool.fresh
      ((NameTable.empty.declare Demo.extendedJapanese.bare).catalog.toSource 0) ()
    let modern := Locale.ofFields "ja" "" "JP" ""
    let marked := Locale.japaneseCalendar
    (NameTable.empty.declare Demo.extendedJapanese).Built ∧
      modern ∈ modern.candidates ∧ modern ≠ .root ∧
      modern ∈ (extended.availableLocales .localeName).1 ∧
      (extended.kindsFor .localeName modern).1 = [] ∧
      (NameTable.empty.declare Demo.extendedJapanese.bare).Built ∧
      marked ∈ marked.candidates ∧ marked ≠ .root ∧
      marked ∉ (stripped.availableLocales .localeName).1 ∧
      (stripped.kindsFor .localeName marked).1 = [.builtin] := by
  have hbuilt : Demo.extendedJapanese.Built := (Locale.Built.ofFields _ _ _ _).withExtension _ _
  refine ⟨.declare .empty hbuilt, ?_⟩
  refine ⟨by decide, by decide, by decide, by decide, .declare .empty hbuilt.bare, ?_⟩
  exact ⟨by decide, by decide, by decide, by decide⟩

theorem Pool.gate_differs_iff_japanese :
    let t := NameTable.empty.declare Demo.extendedJapanese
    let p := Pool.fresh (t.catalog.toSource 0) ()
    let modern := Locale.ofFields "ja" "" "JP" ""
    (t.catalog.toSource 0).IsOfTables ∧ p.Reachable ∧
      modern ∈ modern.candidates ∧ modern ≠ .root ∧
      modern ∈ (p.availableLocales .localeName).1 ∧ (p.kindsFor .localeName modern).1 = [] := by
  intro t p modern
  have hbuilt : t.Built := .declare .empty ((Locale.Built.ofFields _ _ _ _).withExtension _ _)
  have hmem : modern ∈ modern.candidates := by decide
  have hne : modern ≠ .root := by decide
  have hdeclared : ∃ e ∈ (p.registry .localeName).1.roster.entries,
      Demo.extendedJapanese ∈ (e.2.listing ()).1 := by decide
  have hother : ∀ e ∈ (p.registry .localeName).1.roster.entries, ∀ m ∈ (e.2.listing ()).1,
      m.bare ≠ modern.bare := by decide
  have hrespelled : Demo.extendedJapanese.IsRespelled := ⟨by decide, by decide, by decide⟩
  have hdiffers := (Pool.gate_differs_iff hbuilt.isOfTables (.fresh ()) () .localeName hmem
    hne).2.1.mpr
  refine ⟨hbuilt.isOfTables, .fresh (), hmem, hne, hdiffers ⟨?_, ?_⟩⟩
  · exact ⟨Demo.extendedJapanese, hdeclared, Or.inl hrespelled, by decide⟩
  · rintro m ⟨e, he, hm⟩
    exact hother e he m hm

end LocaleServices

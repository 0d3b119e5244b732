import LocaleServices.Proofs.Locale.Members

/-!
  Availability keys against candidate chains.

  `KeyCase` lists the four ways in which a locale gets its key: as it is, in the modern
  spelling of a legacy form, bare, or without its script (`keyCase`). The key keeps the base
  fields in their candidate form unless the locale is `IsAstray` (`availabilityKey_eq_rebuilt_iff`).
  Main statement: the key of a locale is one of its candidates, except in three families of
  locales, and there it is none (`availabilityKey_mem_candidates_iff`).
-/

namespace LocaleServices

/-! ## Legacy forms -/

namespace Legacy

theorem isLanguage_modernLanguage (form : Legacy) :
    Subtag.isLanguage form.modernLanguage.toList = true := by
  cases form <;> decide

theorem isRegion_region (form : Legacy) : Subtag.isRegion form.region.toList = true := by
  cases form <;> decide

theorem variant_ne_empty (form : Legacy) : form.variant ≠ "" := by
  cases form <;> decide

theorem language_ne_chinese (form : Legacy) : form.language ≠ "zh" := by
  cases form <;> decide

end Legacy

namespace Locale

theorem legacy?_eq_some_iff {l : Locale} {form : Legacy} :
    l.legacy? = some form ↔
      form.language = l.language ∧ form.region = l.region ∧ form.variant = l.variant :=
  Legacy.ofFields?_eq_some_iff

theorem variant_ne_empty_of_legacy? {l : Locale} {form : Legacy} (h : l.legacy? = some form) :
    l.variant ≠ "" :=
  (legacy?_eq_some_iff.mp h).2.2 ▸ form.variant_ne_empty

theorem modernized_of_legacy? {l : Locale} {form : Legacy} (h : l.legacy? = some form) :
    l.modernized = { l.bare with language := form.modernLanguage, variant := "" } := by
  simp only [modernized, h]

theorem of_bare (f : Field) (l : Locale) : f.of l.bare = f.of l := by
  cases f <;> rfl

theorem fault?_bare (l : Locale) : l.bare.fault? = l.fault? := by
  simp only [fault?, admits, of_bare]

theorem modernized_of_legacy?_eq_none {l : Locale} (h : l.legacy? = none) :
    l.modernized = l.bare := by
  simp only [modernized, h]

/-- Only the script of a legacy form can be ill-formed. -/
theorem fault?_modernized_of_legacy? {l : Locale} {form : Legacy} (h : l.legacy? = some form) :
    l.modernized.fault? = none ↔ l.admits .script = true := by
  have hr : Subtag.isRegion l.region.toList = true := by
    rw [← (legacy?_eq_some_iff.mp h).2.1]
    exact form.isRegion_region
  rw [modernized_of_legacy? h, fault?_eq_none_iff]
  constructor
  · intro hf
    exact hf .script
  · intro hs f
    cases f with
    | language => exact Bool.or_eq_true_iff.mpr (Or.inr form.isLanguage_modernLanguage)
    | script => exact hs
    | region => exact Bool.or_eq_true_iff.mpr (Or.inr hr)
    | variant => rfl

/-- The modern spelling is a locale made from its fields. -/
theorem IsUsual.modernized_eq_ofFields {l : Locale} (h : l.IsUsual) {form : Legacy}
    (hf : l.legacy? = some form) :
    l.modernized = ofFields form.modernLanguage l.script l.region "" := by
  have hm : l.modernized.rebuilt = l.modernized := by
    rw [h.modernized.rebuilt_eq_self_iff, modernized_of_legacy? hf]
    refine (markerOf_eq_empty_iff.mpr ?_).symm
    rintro ⟨_, hm | hm⟩
    · exact variant_ne_empty_of_legacy? hm rfl
    · exact variant_ne_empty_of_legacy? hm rfl
  rw [← hm, modernized_of_legacy? hf]
  rfl

/-! ## The four cases -/

/-- How a locale gets its key. -/
inductive KeyCase (l : Locale) : Locale → Prop
  | plain (h : l.isPlain = true) : KeyCase l l
  | modern (form : Legacy) (h : l.isPlain = false) (hf : l.legacy? = some form)
      (hs : l.admits .script = true) :
      KeyCase l (ofFields form.modernLanguage l.script l.region "")
  | clean (h : l.isPlain = false) (hf : l.legacy? = none) (hv : l.fault? = none) :
      KeyCase l l.rebuilt
  | degraded (e : IllFormed) (h : l.isPlain = false) (hd : l.modernized.fault? = some e) :
      KeyCase l (unscripted l.language l.region l.variant)

theorem IsUsual.rebuilt_eq_bare_of_legacy? {l : Locale} (h : l.IsUsual) (hf : l.legacy? = none) :
    l.rebuilt = l.bare :=
  h.rebuilt_eq_bare fun hm => by simp [hf, standsForMarker] at hm

theorem keyCase {l : Locale} (h : l.IsUsual) : KeyCase l l.availabilityKey := by
  unfold availabilityKey
  split
  · rename_i hp
    exact .plain hp
  · rename_i hp
    rw [Bool.not_eq_true] at hp
    have hdeg : l.degradation? = l.modernized.fault? := by simp [degradation?, hp]
    rw [hdeg]
    split
    · rename_i hd
      cases hf : l.legacy? with
      | none =>
        rw [modernized_of_legacy?_eq_none hf, fault?_bare] at hd
        rw [modernized_of_legacy?_eq_none hf, ← h.rebuilt_eq_bare_of_legacy? hf]
        exact .clean hp hf hd
      | some form =>
        rw [h.modernized_eq_ofFields hf]
        exact .modern form hp hf ((fault?_modernized_of_legacy? hf).mp hd)
    · rename_i e hd
      exact .degraded e hp hd

/-! ## Keys that are not in candidate form -/

/-- Irregular fields whose marker was taken away. -/
def LacksMarker (l : Locale) : Prop := l.hasExtensions = false ∧ l.standsForMarker

/-- A legacy form whose key is its modern spelling. -/
def IsRespelled (l : Locale) : Prop :=
  l.isPlain = false ∧ l.legacy? ≠ none ∧ l.admits .script = true

/-- A locale whose key is without its script. -/
def LosesScript (l : Locale) : Prop :=
  l.isPlain = false ∧ l.script ≠ "" ∧ l.modernized.fault? ≠ none

/-- The locales whose key is not what a candidate with their fields looks like. -/
def IsAstray (l : Locale) : Prop := l.LacksMarker ∨ l.IsRespelled ∨ l.LosesScript

theorem isPlain_of_not_hasExtensions {l : Locale} (h : l.hasExtensions = false) :
    l.isPlain = true := by
  simp [isPlain, h]

theorem hasExtensions_of_not_isPlain {l : Locale} (h : l.isPlain = false) :
    l.hasExtensions = true := by
  rw [← Bool.not_eq_false]
  intro he
  rw [isPlain_of_not_hasExtensions he] at h
  cases h

theorem hasExtensions_eq_false_iff {l : Locale} :
    l.hasExtensions = false ↔ l.extensions = .empty := by
  rw [hasExtensions, Bool.not_eq_false']
  constructor
  · intro h
    exact Extensions.ext_find? fun k => by
      rw [Extensions.find?, List.isEmpty_iff.mp h]
      rfl
  · intro h
    rw [h]
    rfl

/-- A plain locale has its candidate form unless its marker was taken away. -/
theorem IsUsual.rebuilt_eq_self_of_isPlain {l : Locale} (h : l.IsUsual)
    (hp : l.isPlain = true) : l.rebuilt = l ↔ ¬ l.LacksMarker := by
  rw [h.rebuilt_eq_self_iff]
  cases he : l.hasExtensions with
  | false =>
    rw [hasExtensions_eq_false_iff.mp he, eq_comm, markerOf_eq_empty_iff]
    simp [LacksMarker, he]
  | true =>
    have hi : l.isIrregular = true := by simpa [isPlain, he] using hp
    have hm : l.extensions = markerOf l.language l.script l.region l.variant := by
      simp only [isIrregular, Bool.and_eq_true, decide_eq_true_eq] at hi
      exact hi.2
    simp [LacksMarker, he, hm]

theorem availabilityKey_eq_rebuilt_iff {l : Locale} (h : l.IsUsual) :
    l.availabilityKey = l.rebuilt ↔ ¬ l.IsAstray := by
  have hcase := keyCase h
  generalize l.availabilityKey = key at hcase
  cases hcase with
  | plain hp =>
    rw [eq_comm, h.rebuilt_eq_self_of_isPlain hp]
    simp [IsAstray, IsRespelled, LosesScript, hp]
  | modern form hp hf hs =>
    have hne : ofFields form.modernLanguage l.script l.region "" ≠ l.rebuilt := by
      intro he
      have hv : "" = l.variant := congrArg variant he
      exact variant_ne_empty_of_legacy? hf hv.symm
    have hr : l.IsRespelled := ⟨hp, by simp [hf], hs⟩
    simp [hne, IsAstray, hr]
  | clean hp hf hv =>
    have hd : l.modernized.fault? = none := by
      rw [modernized_of_legacy?_eq_none hf, fault?_bare]
      exact hv
    simp [IsAstray, LacksMarker, IsRespelled, LosesScript, standsForMarker, hf, hd]
  | degraded e hp hd =>
    have hext : l.hasExtensions = true := hasExtensions_of_not_isPlain hp
    have hnr : ¬ l.IsRespelled := by
      rintro ⟨_, hl, hs⟩
      obtain ⟨form, hf⟩ := Option.ne_none_iff_exists'.mp hl
      rw [(fault?_modernized_of_legacy? hf).mpr hs] at hd
      cases hd
    have hkey : unscripted l.language l.region l.variant = l.rebuilt ↔ l.script = "" := by
      constructor
      · intro he
        have hs : Text.titled "" = Text.titled l.script := congrArg script he
        exact Text.titled_eq_empty_iff.mp hs.symm
      · intro hs
        rw [rebuilt, hs]
        rfl
    simp [hkey, IsAstray, LacksMarker, hext, hnr, LosesScript, hp, hd]

/-! ## Keys in chains -/

/-- The old spelling of Nynorsk with a script and without extensions. -/
def IsScriptedNynorsk (l : Locale) : Prop :=
  l.hasExtensions = false ∧ l.script ≠ "" ∧ l.legacy? = some .nynorsk

/-- A plain locale in the old spelling of Nynorsk has no extensions. -/
theorem IsUsual.hasExtensions_of_nynorsk {l : Locale} (h : l.IsUsual) (hp : l.isPlain = true)
    (hl : l.legacy? = some .nynorsk) : l.hasExtensions = false := by
  have hm : ¬ l.standsForMarker := by simp [standsForMarker, hl]
  have he := h.rebuilt_eq_self_iff.mp
    ((h.rebuilt_eq_self_of_isPlain hp).mpr fun hlack => hm hlack.2)
  rw [hasExtensions_eq_false_iff, he]
  exact markerOf_eq_empty_iff.mpr hm

theorem IsUsual.availabilityKey_mem_candidates {l : Locale} (h : l.IsUsual)
    (hm : ¬ l.LacksMarker) (hn : ¬ l.IsScriptedNynorsk) (hp : ¬ l.PassesVariant) :
    l.availabilityKey ∈ l.candidates := by
  have hcase := keyCase h
  generalize l.availabilityKey = key at hcase
  cases hcase with
  | plain hpl =>
    have hs : l.legacy? = some .nynorsk → l.script = "" := fun hl =>
      Classical.not_not.mp fun hs => hn ⟨h.hasExtensions_of_nynorsk hpl hl, hs, hl⟩
    have hmem : l.rebuilt ∈ l.candidates := ofFields_mem_candidates (Or.inl rfl) hs hp
    rwa [(h.rebuilt_eq_self_of_isPlain hpl).mpr hm] at hmem
  | modern form _ hf _ => exact modern_mem_candidates hf
  | clean _ hf _ => exact ofFields_mem_candidates (Or.inl rfl) (fun hl => by simp [hf] at hl) hp
  | degraded => exact ofFields_mem_candidates (Or.inr rfl) (fun _ => rfl) hp

theorem IsUsual.availabilityKey_notMem_of_lacksMarker {l : Locale} (h : l.IsUsual)
    (hm : l.LacksMarker) : l.availabilityKey ∉ l.candidates := by
  rw [availabilityKey_of_not_hasExtensions hm.1]
  intro hmem
  have hp := isPlain_of_not_hasExtensions hm.1
  exact (h.rebuilt_eq_self_of_isPlain hp).mp (rebuilt_of_mem_candidates hmem) hm

/-- In a chain from the old spelling of Nynorsk its language comes without a script. -/
theorem notMem_candidates_of_nynorsk {l d : Locale} (hl : l.legacy? = some .nynorsk)
    (hd : d.language = l.language) (hs : d.script ≠ "") : d ∉ l.candidates := by
  rw [candidates, if_pos hl]
  intro hmem
  exact hs (script_of_mem_nynorskChain hmem (hd.trans (legacy?_eq_some_iff.mp hl).1.symm))

theorem availabilityKey_notMem_of_isScriptedNynorsk {l : Locale} (hn : l.IsScriptedNynorsk) :
    l.availabilityKey ∉ l.candidates := by
  obtain ⟨he, hs, hl⟩ := hn
  rw [availabilityKey_of_not_hasExtensions he]
  exact notMem_candidates_of_nynorsk hl rfl hs

/-- Chinese without a region takes the region of its script. -/
theorem candidates_of_passesVariant {l : Locale} (hp : l.PassesVariant) :
    l.candidates = ordinaryChain "zh" l.script (chineseRegion l.script) l.variant := by
  obtain ⟨hl, hs, hr, _⟩ := hp
  have hn : l.legacy? ≠ some .nynorsk := fun h =>
    Legacy.language_ne_chinese _ ((legacy?_eq_some_iff.mp h).1.trans hl)
  have hs' : l.script ≠ "" := by
    rcases hs with hs | hs <;> rw [hs] <;> decide
  simp [candidates, hn, hl, chineseChain, hs', hr]

/-- A variant that Chinese passes over comes with the region of the script only. -/
theorem notMem_candidates_of_passesVariant {l d : Locale} (hp : l.PassesVariant)
    (hv : d.variant = l.variant) (hr : d.region = "") : d ∉ l.candidates := by
  rw [candidates_of_passesVariant hp]
  intro hmem
  obtain ⟨-, hs, -, hne⟩ := hp
  have hreg := region_of_mem_ordinaryChain hmem (hv ▸ hne)
  rw [hr] at hreg
  rcases hs with hs | hs <;> rw [hs] at hreg <;> exact absurd hreg (by decide)

theorem availabilityKey_notMem_of_passesVariant {l : Locale} (h : l.IsUsual)
    (hp : l.PassesVariant) : l.availabilityKey ∉ l.candidates := by
  obtain ⟨hl, -, hr, -⟩ := id hp
  have hkey : l.availabilityKey.variant = l.variant ∧ l.availabilityKey.region = "" := by
    have hcase := keyCase h
    generalize l.availabilityKey = key at hcase
    cases hcase with
    | plain => exact ⟨rfl, hr⟩
    | modern form _ hf _ =>
      exact absurd ((legacy?_eq_some_iff.mp hf).1.trans hl) form.language_ne_chinese
    | clean => exact ⟨rfl, (congrArg Text.upper hr).trans rfl⟩
    | degraded => exact ⟨rfl, (congrArg Text.upper hr).trans rfl⟩
  exact notMem_candidates_of_passesVariant hp hkey.1 hkey.2

/-- The key of a locale is one of its candidates, but for irregular fields without their
    marker, the old spelling of Nynorsk with a script, and a variant of simplified or
    traditional Chinese without a region. -/
theorem availabilityKey_mem_candidates_iff {l : Locale} (h : l.Built) :
    l.availabilityKey ∈ l.candidates ↔
      ¬ (l.LacksMarker ∨ l.IsScriptedNynorsk ∨ l.PassesVariant) := by
  constructor
  · rintro hmem (hm | hn | hp)
    · exact h.isUsual.availabilityKey_notMem_of_lacksMarker hm hmem
    · exact availabilityKey_notMem_of_isScriptedNynorsk hn hmem
    · exact availabilityKey_notMem_of_passesVariant h.isUsual hp hmem
  · intro hnot
    exact h.isUsual.availabilityKey_mem_candidates (fun hm => hnot (Or.inl hm))
      (fun hn => hnot (Or.inr (Or.inl hn))) (fun hp => hnot (Or.inr (Or.inr hp)))

/-- Serbian with an ill-formed variant loses its script and still meets its chain; Chinese
    with a variant and no region does not. -/
theorem availabilityKey_mem_candidates_serbian :
    let serbian := (ofFields "sr" "Latn" "RS" "x").withExtension 'u' "nu-latn"
    let chinese := (ofFields "zh" "Hans" "" "posix").withExtension 'u' "nu-latn"
    serbian.Built ∧ serbian.availabilityKey ∈ serbian.candidates ∧
      chinese.Built ∧ chinese.availabilityKey ∉ chinese.candidates := by
  intro serbian chinese
  have hs : serbian.Built := (Built.ofFields "sr" "Latn" "RS" "x").withExtension 'u' "nu-latn"
  have hc : chinese.Built := (Built.ofFields "zh" "Hans" "" "posix").withExtension 'u' "nu-latn"
  refine ⟨hs, (availabilityKey_mem_candidates_iff hs).mpr ?_, hc, ?_⟩
  · rintro (h | h | h)
    · exact absurd h.1 (by decide)
    · exact absurd h.1 (by decide)
    · exact absurd h.1 (by decide)
  · intro hmem
    refine (availabilityKey_mem_candidates_iff hc).mp hmem (Or.inr (Or.inr ?_))
    exact ⟨by decide, Or.inl (by decide), by decide, by decide⟩

end Locale

end LocaleServices

import LocaleServices.Proofs.Runs
import LocaleServices.Proofs.Service.Catalogs
import LocaleServices.Proofs.Service.Instances
import LocaleServices.Proofs.Service.Resolving

/-!
  Registries of a catalog that was filled by registrations.

  A `Registration` is for one category or for all of them, and a later one takes the place of
  an earlier one (`find?_ofRegistrations_eq_some_iff`). The completed preference keeps the
  first mention of each kind, in order (`Preference.pairwise_complete`). A registry holds
  what was registered for the kinds of the completed preference, the source is asked for
  these in the order of declaration and only once in a run (`Reachable.asked_eq`), and every
  list of kinds that serve a locale is part of the ranking (`kept_ranksKinds`). Main
  statement: `registry_of_registrations`.
-/

namespace LocaleServices

variable {σ δ : Type}

/-! ## Order of preference -/

namespace Preference

/-- What comes first in a part of a list comes first in the list. -/
theorem idxOf_lt_of_filter {f : Kind → Bool} {k k' : Kind} (hk : f k = true) (hk' : f k' = true)
    {kinds : List Kind} (h : (kinds.filter f).idxOf k < (kinds.filter f).idxOf k') :
    kinds.idxOf k < kinds.idxOf k' := by
  induction kinds with
  | nil => exact h
  | cons q kinds ih =>
    by_cases hq : f q = true
    · rw [List.filter_cons_of_pos hq] at h
      by_cases hqk' : q = k'
      · rw [hqk', List.idxOf_cons_self] at h
        cases h
      · by_cases hqk : q = k
        · rw [hqk, List.idxOf_cons_self, List.idxOf_cons_ne _ (hqk ▸ hqk')]
          exact Nat.succ_pos _
        · rw [List.idxOf_cons_ne _ hqk, List.idxOf_cons_ne _ hqk'] at h ⊢
          exact Nat.succ_lt_succ (ih (Nat.lt_of_succ_lt_succ h))
    · have hne : ∀ {k}, f k = true → q ≠ k := fun hk he => hq (he ▸ hk)
      rw [List.filter_cons_of_neg hq] at h
      rw [List.idxOf_cons_ne _ (hne hk), List.idxOf_cons_ne _ (hne hk')]
      exact Nat.succ_lt_succ (ih h)

/-- Kinds stand in the order of their first mentions. -/
theorem pairwise_eraseDups (kinds : List Kind) :
    kinds.eraseDups.Pairwise fun k k' => kinds.idxOf k < kinds.idxOf k' := by
  match kinds with
  | [] => exact .nil
  | q :: kinds =>
    have hlater : ∀ k ∈ (kinds.filter fun k => !k == q).eraseDups, (!k == q) = true :=
      fun k hk => (List.mem_filter.mp (List.mem_eraseDups.mp hk)).2
    have hne : ∀ k ∈ (kinds.filter fun k => !k == q).eraseDups, q ≠ k := by
      rintro k hk rfl
      simpa using hlater q hk
    rw [List.eraseDups_cons, List.pairwise_cons]
    constructor
    · intro k hk
      rw [List.idxOf_cons_self, List.idxOf_cons_ne _ (hne k hk)]
      exact Nat.succ_pos _
    · refine (pairwise_eraseDups (kinds.filter fun k => !k == q)).imp_of_mem
        fun {k k'} hk hk' hlt => ?_
      rw [List.idxOf_cons_ne _ (hne k hk), List.idxOf_cons_ne _ (hne k' hk')]
      exact Nat.succ_lt_succ (idxOf_lt_of_filter (hlater k hk) (hlater k' hk') hlt)
termination_by kinds.length
decreasing_by exact Nat.lt_succ_of_le (List.length_filter_le _ _)

/-- The built-in kind counts as mentioned last. -/
theorem complete_eq (kinds : List Kind) :
    complete kinds = (kinds ++ [Kind.builtin]).eraseDups := by
  rw [eraseDups_concat]
  simp only [complete, List.mem_eraseDups]

theorem pairwise_complete (kinds : List Kind) :
    (complete kinds).Pairwise fun k k' =>
      (kinds ++ [Kind.builtin]).idxOf k < (kinds ++ [Kind.builtin]).idxOf k' := by
  rw [complete_eq]
  exact pairwise_eraseDups _

end Preference

/-! ## Registrations -/

/-- An adapter that is registered for a kind, in one category or in every category. -/
inductive Registration (σ δ : Type)
  | one (kind : Kind) (category : Category) (adapter : Adapter σ δ)
  | every (kind : Kind) (adapter : Adapter σ δ)

namespace Registration

def adapter : Registration σ δ → Adapter σ δ
  | one _ _ a => a
  | every _ a => a

/-- Whether a registration is for a kind and a category, perhaps among others. -/
def covers (k : Kind) (c : Category) : Registration σ δ → Bool
  | one k' c' _ => k' = k ∧ c' = c
  | every k' _ => k' = k

end Registration

namespace Catalog

def enter (t : Catalog σ δ) : Registration σ δ → Catalog σ δ
  | .one k c a => t.register k c a
  | .every k a => t.registerAll k a

/-- The catalog that registrations fill, in order. -/
def ofRegistrations (preference : List Kind) (regs : List (Registration σ δ)) : Catalog σ δ :=
  regs.foldl enter (empty preference)

theorem find?_enter (t : Catalog σ δ) (g : Registration σ δ) (k : Kind) (c : Category) :
    (t.enter g).find? k c = if g.covers k c then some g.adapter else t.find? k c := by
  cases g with
  | one k' c' a => simp [enter, find?_register, Registration.covers, Registration.adapter]
  | every k' a => simp [enter, find?_registerAll, Registration.covers, Registration.adapter]

theorem preference_enter (t : Catalog σ δ) (g : Registration σ δ) :
    (t.enter g).preference = t.preference := by
  cases g with
  | one => rfl
  | every => rfl

@[simp] theorem preference_ofRegistrations (preference : List Kind)
    (regs : List (Registration σ δ)) :
    (ofRegistrations preference regs).preference = preference := by
  induction regs using List.reverseRecOn with
  | nil => rfl
  | append_singleton regs g ih =>
    rw [ofRegistrations, List.foldl_append]
    exact (preference_enter _ g).trans ih

/-- The last registration for a kind and a category stands. -/
theorem find?_ofRegistrations (preference : List Kind) (regs : List (Registration σ δ))
    (k : Kind) (c : Category) :
    (ofRegistrations preference regs).find? k c =
      (regs.findRev? (·.covers k c)).map Registration.adapter := by
  have hrun := view_foldl (fun t : Catalog σ δ => t.find? k c)
    (fun t g => t.find?_enter g k c) (empty preference) regs
  rw [ofRegistrations, hrun]
  cases regs.findRev? (·.covers k c) <;> rfl

theorem find?_ofRegistrations_eq_some_iff {preference : List Kind}
    {regs : List (Registration σ δ)} {k : Kind} {c : Category} {a : Adapter σ δ} :
    (ofRegistrations preference regs).find? k c = some a ↔
      ∃ before g after, regs = before ++ g :: after ∧ g.covers k c = true ∧ g.adapter = a ∧
        ∀ g' ∈ after, g'.covers k c = false := by
  rw [find?_ofRegistrations, Option.map_eq_some_iff]
  simp only [findRev?_eq_some_iff_append]
  constructor
  · rintro ⟨g, ⟨hcovers, before, after, hregs, hafter⟩, ha⟩
    exact ⟨before, g, after, hregs, hcovers, ha, hafter⟩
  · rintro ⟨before, g, after, hregs, hcovers, ha, hafter⟩
    exact ⟨g, ⟨hcovers, before, after, hregs, hafter⟩, ha⟩

theorem isSome_find?_ofRegistrations (preference : List Kind)
    (regs : List (Registration σ δ)) (k : Kind) (c : Category) :
    ((ofRegistrations preference regs).find? k c).isSome = regs.any (·.covers k c) := by
  rw [find?_ofRegistrations, Option.isSome_map, List.findRev?_eq_find?_reverse,
    List.isSome_find?, List.any_reverse]

end Catalog

/-! ## Questions to the source -/

/-- Whether a call goes to the source. -/
def Call.isToSource : Call → Bool
  | .preference => true
  | .adapterFor .. => true
  | _ => false

/-- The kind that the source is asked for in a category. -/
def Call.asked? (c : Category) : Call → Option Kind
  | .adapterFor k c' => if c' = c then some k else none
  | _ => none

/-- The kinds that the source was asked for in a category, in order. -/
def Session.asked (c : Category) (s : Session σ) : List Kind :=
  s.calls.filterMap (Call.asked? c)

/-- What the questions for one registry add. -/
theorem Call.filterMap_asked? (c c' : Category) (ks : List Kind) :
    (Call.preference :: .adapterFor .builtin c' :: ks.map (.adapterFor · c')).filterMap
      (Call.asked? c) = if c' = c then .builtin :: ks else [] := by
  rw [List.filterMap_cons_none (by rfl)]
  by_cases hc : c' = c
  · have hsome : Call.asked? c ∘ (Call.adapterFor · c') = some := funext fun k => if_pos hc
    rw [List.filterMap_cons_some (by exact if_pos hc), List.filterMap_map, hsome,
      List.filterMap_some, if_pos hc]
  · have hnone : Call.asked? c ∘ (Call.adapterFor · c') = fun _ => none :=
      funext fun k => if_neg hc
    rw [List.filterMap_cons_none (by exact if_neg hc), List.filterMap_map, hnone, if_neg hc]
    exact List.filterMap_eq_nil_iff.mpr fun _ _ => rfl

theorem Call.asked?_of_not_isToSource {call : Call} (h : call.isToSource = false)
    (c : Category) : call.asked? c = none := by
  cases call with
  | preference => rfl
  | adapterFor => cases h
  | listing | support | getter => rfl

theorem Call.not_isToSource_of_isTest {call : Call} (h : call.isTest = true) :
    call.isToSource = false := by
  cases call with
  | preference | adapterFor => cases h
  | listing | support | getter => rfl

namespace Registry

/-- Work on a registry calls adapters only. -/
theorem Step.calls {c : Category} {x y : Registry σ δ × Session σ} {log : List Event}
    (h : Step c x log y) :
    ∃ calls, y.2.calls = x.2.calls ++ calls ∧ ∀ call ∈ calls, call.isToSource = false := by
  have none (s : Session σ) : ∃ calls, s.calls = s.calls ++ calls ∧
      ∀ call ∈ calls, call.isToSource = false :=
    ⟨[], (List.append_nil _).symm, fun _ h => by cases h⟩
  have tests {s s' : Session σ} (h : s.Testing s') : ∃ calls, s'.calls = s.calls ++ calls ∧
      ∀ call ∈ calls, call.isToSource = false := by
    obtain ⟨calls, hcalls, htest⟩ := h.calls
    exact ⟨calls, hcalls, fun call hc => Call.not_isToSource_of_isTest (htest call hc)⟩
  cases h with
  | start hway l r s => exact none s
  | examine d r s => exact none s
  | report m r s => exact none s
  | fail l r s => exact none s
  | test k a l r s => exact tests (Session.testing_test a _ l s)
  | kinds l r s =>
    unfold kindsFor
    split
    · exact none s
    · exact tests (s := s.count .kindsMiss) (r.testing_serving l r.preference _)
  | available r s =>
    unfold availableLocales
    split
    · exact none s
    · refine ⟨r.adapters.entries.map r.enumeration, r.calls_collectKeys _ _, fun call hc => ?_⟩
      obtain ⟨e, _, rfl⟩ := List.mem_map.mp hc
      rfl
  | answered =>
    exact ⟨_, rfl, fun call hc => by rw [List.mem_singleton.mp hc]; rfl⟩
  | @passed _ q k a r s hg =>
    refine ⟨[.getter (r.addressee k a) q.locale q.key q.expected
      (s.get q.getter a (r.addressee k a) q.locale q.key q.expected).1.isSome], ?_,
      fun call hc => by rw [List.mem_singleton.mp hc]; rfl⟩
    unfold reportMissing
    split <;> rfl

theorem asked_of_row {c : Category} {x y : Registry σ δ × Session σ} {log : List Event}
    (h : Row (Step c) x log y) (c' : Category) : y.2.asked c' = x.2.asked c' := by
  induction h with
  | nil => rfl
  | cons hs _ ih =>
    obtain ⟨calls, hcalls, hto⟩ := hs.calls
    have hnone : calls.filterMap (Call.asked? c') = [] :=
      List.filterMap_eq_nil_iff.mpr fun call hc => Call.asked?_of_not_isToSource (hto call hc) c'
    rw [ih, Session.asked, hcalls, List.filterMap_append, hnone, List.append_nil]
    rfl

/-! ## Kinds of a registry -/

theorem adapterKinds_eq (r : Registry σ δ) : r.adapterKinds = r.roster.entries.map Prod.fst :=
  (r.roster.map_fst_among r.preference).symm

theorem sublist_serving (r : Registry σ δ) (l : Locale) (ks : List Kind) (s : Session σ) :
    (r.serving l ks s).1.Sublist (ks.filter r.adapters.contains) := by
  induction ks generalizing s with
  | nil => exact .refl _
  | cons k ks ih =>
    unfold serving
    split
    · rename_i ha
      have hk : ¬r.adapters.contains k = true := by simpa [Table.contains, adapter?] using ha
      rw [List.filter_cons_of_neg hk]
      exact ih s
    · rename_i a ha
      have hk : r.adapters.contains k = true := Option.isSome_of_eq_some ha
      rw [List.filter_cons_of_pos hk]
      dsimp only
      split
      · exact (ih _).cons_cons k
      · exact (ih _).cons k

/-- Whether all remembered kinds are part of the ranking. -/
def RanksKinds (r : Registry σ δ) : Prop :=
  ∀ l ks, r.kindsByLocale.find? l = some ks → ks.Sublist r.adapterKinds

theorem RanksKinds.kindsFor {r : Registry σ δ} (h : r.RanksKinds) (l : Locale)
    (s : Session σ) :
    (r.kindsFor l s).1.Sublist r.adapterKinds ∧ (r.kindsFor l s).2.1.RanksKinds := by
  unfold Registry.kindsFor
  split
  · rename_i ks hks
    exact ⟨h l ks hks, h⟩
  · have hserving := r.sublist_serving l r.preference (s.count .kindsMiss)
    refine ⟨hserving, fun l' ks hks => ?_⟩
    rw [Table.find?_insert] at hks
    split at hks
    · cases hks
      exact hserving
    · exact h l' ks hks

theorem kept_ranksKinds (src : Source σ δ) : Kept src fun _ r => r.RanksKinds where
  new := fun h l ks hks => by
    rw [h.kindsByLocale] at hks
    cases hks
  availableLocales := fun s h => by
    unfold Registry.availableLocales
    split <;> exact h
  kindsFor := fun l s h => (h.kindsFor l s).2

end Registry

/-! ## Registries over registrations -/

namespace Pool

variable {preference : List Kind} {regs : List (Registration σ δ)}
  {p : Pool ((Catalog.ofRegistrations preference regs).toSource 0)}

theorem preference_of_madeFor {c : Category} {r : Registry σ δ}
    (h : r.MadeFor ((Catalog.ofRegistrations preference regs).toSource 0) c) :
    r.preference = Preference.complete preference := by
  obtain ⟨w, hw⟩ := h.offers.preference
  rw [show r.preference = r.roster.preference from rfl, hw]
  exact congrArg Preference.complete (Catalog.preference_ofRegistrations preference regs)

theorem adapter?_of_madeFor {c : Category} {r : Registry σ δ}
    (h : r.MadeFor ((Catalog.ofRegistrations preference regs).toSource 0) c) {k : Kind}
    {a : Adapter σ δ} :
    r.adapter? k = some a ↔ k ∈ Preference.complete preference ∧
      (Catalog.ofRegistrations preference regs).find? k c = some a := by
  have hentries := Catalog.mem_entries_of_offers h.offers (k := k) (a := a)
  rw [Catalog.preference_ofRegistrations] at hentries
  exact h.offers.mem_entries_iff.symm.trans hentries

/-- The registered kinds, in order of preference. -/
theorem adapterKinds_of_madeFor {c : Category} {r : Registry σ δ}
    (h : r.MadeFor ((Catalog.ofRegistrations preference regs).toSource 0) c) :
    r.adapterKinds = (Preference.complete preference).filter fun k =>
      regs.any (·.covers k c) := by
  unfold Registry.adapterKinds
  rw [preference_of_madeFor h]
  refine List.filter_congr fun k hk => ?_
  have hadapter : r.adapter? k = (Catalog.ofRegistrations preference regs).find? k c :=
    Option.ext fun a => (adapter?_of_madeFor h).trans (and_iff_right hk)
  rw [← Catalog.isSome_find?_ofRegistrations preference regs k c, ← hadapter]
  rfl

/-- One registry is constructed, and the source is asked for its kinds. -/
theorem constructs_of_registrations (hp : p.callbacks = 0) {c : Category}
    (hc : p.registries.find? c = none) :
    (p.registry c).2.session.calls = p.session.calls ++ .preference :: .adapterFor .builtin c ::
      (Preference.others (Preference.complete preference)).map (.adapterFor · c) := by
  obtain ⟨discarded, hmade⟩ := constructs_registry hc
  have hlength := hmade.length_discarded
  rw [hp, List.length_eq_zero_iff] at hlength
  have hnew := (hmade.isNew _ List.mem_cons_self).toMadeFor
  obtain ⟨w, hw⟩ := hmade.pool
  have hquestions : (p.registry c).1.questions =
      (Preference.others (Preference.complete preference)).map (.adapterFor · c) := by
    rw [Registry.questions, preference_of_madeFor hnew, hnew.category]
  rw [hw, hp, hlength]
  simp [noting, openings, hquestions]

/-- The source was asked for the kinds of the completed preference once, if ever. -/
theorem Reachable.asked_eq (hp : p.Reachable) (c : Category) :
    p.session.asked c =
      if (p.registries.find? c).isSome then
        .builtin :: Preference.others (Preference.complete preference)
      else [] := by
  refine (hp.invariant (I := fun p => p.callbacks = 0 ∧ ∀ c, p.session.asked c =
    if (p.registries.find? c).isSome then
      .builtin :: Preference.others (Preference.complete preference)
    else []) (fun _ => ⟨rfl, fun _ => rfl⟩) ?_ ?_ (fun _ h => h)).2 c
  · rintro p c' ⟨hp, hasked⟩
    cases hc : p.registries.find? c' with
    | some r =>
      rw [registry_of_find? hc]
      exact ⟨hp, hasked⟩
    | none =>
      obtain ⟨_, hmade⟩ := constructs_registry hc
      refine ⟨hmade.callbacks_eq, fun c => ?_⟩
      have hbefore := hasked c
      rw [Session.asked] at hbefore
      rw [Session.asked, constructs_of_registrations hp hc, List.filterMap_append, hbefore,
        hmade.find?_eq, Call.filterMap_asked?]
      by_cases he : c' = c
      · simp [he, he ▸ hc]
      · simp [he]
  · rintro p c' r log done ⟨hp, hasked⟩ hf hw
    refine ⟨hp, fun c => ?_⟩
    have hsome : ((p.afterWork c' done).registries.find? c).isSome =
        (p.registries.find? c).isSome := by
      rw [find?_afterWork]
      split
      · rename_i he
        rw [← he, hf]
        rfl
      · rfl
    rw [hsome, ← hasked c]
    exact Registry.asked_of_row hw c

/-- The registry of a category over registrations: it holds the adapters that were registered
    last for the kinds of the completed preference, and ranks their kinds in the order of
    first mention. Nothing but the built-in adapter is there exactly if that is the whole
    ranking. The source is asked for the built-in adapter and then once for each other kind
    of the completed preference, in the order of declaration. The kinds that serve a locale
    are part of the ranking, in its order. -/
theorem registry_of_registrations (hp : p.Reachable) (c : Category) :
    let P := Preference.complete preference
    let r := (p.registry c).1
    (P.Nodup ∧ (∀ k, k ∈ P ↔ k ∈ preference ∨ k = .builtin) ∧
      P.Pairwise fun k k' =>
        (preference ++ [Kind.builtin]).idxOf k < (preference ++ [Kind.builtin]).idxOf k') ∧
    (∀ k a, r.adapter? k = some a ↔ k ∈ P ∧ ∃ before g after, regs = before ++ g :: after ∧
      g.covers k c = true ∧ g.adapter = a ∧ ∀ g' ∈ after, g'.covers k c = false) ∧
    (r.preference = P ∧ r.adapterKinds = P.filter (fun k => regs.any (·.covers k c)) ∧
      r.adapterKinds.Nodup ∧ ∀ k a, r.adapter? k = some a → k ∈ r.adapterKinds) ∧
    (r.hasExternal = false ↔ r.adapterKinds = [.builtin]) ∧
    (p.registries.find? c = none → (p.registry c).2.session.calls = p.session.calls ++
      .preference :: .adapterFor .builtin c ::
        (Kind.all.filter fun k => k ≠ .builtin ∧ k ∈ P).map (.adapterFor · c)) ∧
    ((p.registry c).2.session.asked c =
      .builtin :: Kind.all.filter fun k => k ≠ .builtin ∧ k ∈ P) ∧
    ∀ l, (p.kindsFor c l).1.Sublist r.adapterKinds := by
  intro P r
  have hmade : r.MadeFor ((Catalog.ofRegistrations preference regs).toSource 0) c :=
    (Registry.kept_madeFor _).registry hp c
  have hranks : r.RanksKinds := (Registry.kept_ranksKinds _).registry hp c
  have hkinds : r.adapterKinds = P.filter fun k => regs.any (·.covers k c) :=
    adapterKinds_of_madeFor hmade
  refine ⟨⟨Preference.nodup_complete preference, fun k => Preference.mem_complete,
    Preference.pairwise_complete preference⟩, fun k a => ?_,
    ⟨preference_of_madeFor hmade, hkinds, ?_, fun k a ha => ?_⟩, ?_, fun hc => ?_, ?_,
    fun l => (hranks.kindsFor l _).1⟩
  · rw [adapter?_of_madeFor hmade, Catalog.find?_ofRegistrations_eq_some_iff]
  · rw [hkinds]
    exact (Preference.nodup_complete preference).filter _
  · rw [r.adapterKinds_eq]
    exact List.mem_map.mpr ⟨(k, a), hmade.offers.mem_entries_iff.mpr ha, rfl⟩
  · rw [hmade.hasExternal_eq, r.adapterKinds_eq]
    simp [Roster.isBuiltinAlone]
  · exact constructs_of_registrations (hp.numbered.callbacks.trans (by simp [Catalog.toSource])) hc
  · have hafter : (p.registry c).2.Reachable := hp.perform (.registry c : Request σ δ Unit)
    rw [hafter.asked_eq, find?_registry]
    rfl

end Pool

/-! ## A preference with repetitions and without the built-in kind -/

/-- Names of one adapter under another label. -/
def Demo.labelled (label : String) : Adapter Unit (Option NameTable) :=
  builtinNames.toAdapter label

/-- A plugin that is registered twice, and a kind that the preference does not name. -/
def Demo.registrations : List (Registration Unit (Option NameTable)) :=
  [.one .plugin .collator (labelled "first plugin"), .every .builtin (labelled "everywhere"),
    .one .extendedData .collator (labelled "unnamed kind"),
    .one .plugin .collator (labelled "second plugin")]

/-- The second plugin is held, and nothing of a kind that the preference does not name. -/
theorem Pool.registry_of_registrations_plugin :
    let src := (Catalog.ofRegistrations [.host, .plugin, .host] Demo.registrations).toSource 0
    let p := Pool.fresh src ()
    let r := (p.registry .collator).1
    p.Reachable ∧ Preference.complete [.host, .plugin, .host] = [.host, .plugin, .builtin] ∧
      r.adapter? .plugin = some (Demo.labelled "second plugin") ∧
      (∀ a, r.adapter? .extendedData ≠ some a) ∧ r.adapterKinds = [.plugin, .builtin] ∧
      r.hasExternal = true ∧
      (p.registry .collator).2.session.calls = [.preference, .adapterFor .builtin .collator,
        .adapterFor .plugin .collator, .adapterFor .host .collator] ∧
      ∀ l, (p.kindsFor .collator l).1.Sublist [.plugin, .builtin] := by
  intro src p
  dsimp only
  have hp : p.Reachable := .fresh ()
  have hP : Preference.complete [.host, .plugin, .host] = [.host, .plugin, .builtin] := by decide
  obtain ⟨-, hadapters, ⟨-, hkinds, -⟩, hexternal, hcalls, -, hsublist⟩ :=
    Pool.registry_of_registrations hp .collator
  have hranking : (p.registry .collator).1.adapterKinds = [.plugin, .builtin] := by
    rw [hkinds, hP]
    decide
  rw [hranking] at hexternal hsublist
  rw [hP] at hadapters hcalls
  refine ⟨hp, hP, (hadapters _ _).mpr ⟨by decide, Demo.registrations.take 3, _, [], rfl, rfl,
    rfl, fun _ h => by cases h⟩, fun a ha => ?_, hranking, ?_, hcalls rfl, hsublist⟩
  · obtain ⟨hmem, -⟩ := (hadapters _ _).mp ha
    revert hmem
    decide
  · rw [← Bool.not_eq_false, hexternal]
    decide

end LocaleServices

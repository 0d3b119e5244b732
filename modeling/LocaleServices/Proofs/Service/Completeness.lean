import LocaleServices.Proofs.Locale.Members
import LocaleServices.Proofs.Service.Resolving

/-!
  Nothing that an adapter knows is missed.

  When the registered adapters serve the root, each of them is eligible for every request
  (`Roster.mem_eligible_of_servesRoot`): the root ends every chain of candidates and needs
  no listing. With a getter that does not look at the world, the outcome is the first datum
  among the eligible adapters (`Pool.Reachable.resolve_eq`). Main statement
  (`Pool.resolve_complete`): a request fails only if no registered adapter has a datum, it
  finds nothing but their data, and where they agree it does not matter which of them are
  registered, listed or preferred.
-/

namespace LocaleServices

variable {σ δ β : Type} {src : Source σ δ}

/-! ## The first datum -/

theorem Inquiry.Asks.answer_eq {q : Inquiry σ δ β} {c : Category}
    {datum : Adapter σ δ → Option β}
    (hq : ∀ a w, (q.getter a q.locale q.key w).1 = datum a) {es : List (Kind × Adapter σ δ)}
    {w w' : σ} {log : List Call} {answer : Option β} (h : q.Asks src c es w log answer w') :
    answer = es.findSome? fun e => datum e.2 := by
  induction h with
  | exhausted => rfl
  | @passed k a rest w u u' w' log answer _ hg _ ih =>
    have ha : datum a = none := (hq a u).symm.trans (congrArg Prod.fst hg)
    rw [List.findSome?_cons, ha]
    exact ih
  | @answered k a rest w u u' w' value _ hg _ =>
    have ha : datum a = some value := (hq a u).symm.trans (congrArg Prod.fst hg)
    rw [List.findSome?_cons, ha]

/-- The outcome for a getter that does not look at the world. -/
theorem Pool.Reachable.resolve_eq {p : Pool src} (hp : p.Reachable) (hs : src.IsSteady) (w : σ)
    (c : Category) {getter : Getter σ δ β}
    {datum : Adapter σ δ → Locale → Option String → Option β}
    (hget : ∀ a l key w, (getter a l key w).1 = datum a l key) (l : Locale)
    (key : Option String) (expected : Expectation) :
    (p.resolve c (some l) key expected getter).1 =
      .ok (.ofOption (((p.registry c).1.roster.eligible w l).findSome?
        fun e => datum e.2 l key)) := by
  obtain ⟨answer, hanswer, _, hasks, _⟩ := hp.resolve_leads hs w c l key expected getter
  rw [hanswer, ← hasks.answer_eq fun a w => hget a l key w]

/-! ## Data of a roster -/

namespace Roster

variable {u u' : Roster σ δ} {w : σ} {l : Locale} {value : β}

theorem mem_eligible_of_servesRoot {e : Kind × Adapter σ δ} (he : e ∈ u.entries)
    (hroot : e.2.ServesRoot) (w : σ) (l : Locale) : e ∈ u.eligible w l := by
  unfold eligible
  split
  · exact he
  · have hadmits : u.admits w .root = true := by simp [admits]
    exact List.mem_flatMap.mpr
      ⟨.root, List.mem_filter.mpr ⟨l.root_mem_candidates, hadmits⟩,
        List.mem_filter.mpr ⟨he, hroot w⟩⟩

theorem findSome?_eligible_eq_none {datum : Adapter σ δ → Option β}
    (h : ∀ e ∈ u.entries, datum e.2 = none) :
    ((u.eligible w l).findSome? fun e => datum e.2) = none := by
  rw [List.findSome?_eq_none_iff]
  intro e he
  exact h e (mem_eligible he)

theorem findSome?_eligible_eq_none_iff (datum : Adapter σ δ → Option β)
    (hroot : ∀ e ∈ u.entries, e.2.ServesRoot) :
    ((u.eligible w l).findSome? fun e => datum e.2) = none ↔
      ∀ e ∈ u.entries, datum e.2 = none := by
  refine ⟨fun h e he => ?_, findSome?_eligible_eq_none⟩
  rw [List.findSome?_eq_none_iff] at h
  exact h e (mem_eligible_of_servesRoot he (hroot e he) w l)

theorem exists_of_findSome?_eligible (datum : Adapter σ δ → Option β)
    (h : ((u.eligible w l).findSome? fun e => datum e.2) = some value) :
    ∃ e ∈ u.entries, datum e.2 = some value := by
  obtain ⟨e, he, hv⟩ := List.exists_of_findSome?_eq_some h
  exact ⟨e, mem_eligible he, hv⟩

/-- What all adapters with a datum agree on is found, if one of them serves the root. -/
theorem findSome?_eligible_of_agree (datum : Adapter σ δ → Option β)
    (h : ∃ e ∈ u.entries, e.2.ServesRoot ∧ datum e.2 = some value)
    (hall : ∀ e ∈ u.entries, datum e.2 = none ∨ datum e.2 = some value) :
    ((u.eligible w l).findSome? fun e => datum e.2) = some value := by
  obtain ⟨e, he, hroot, hv⟩ := h
  cases hf : (u.eligible w l).findSome? fun e => datum e.2 with
  | none =>
    rw [List.findSome?_eq_none_iff] at hf
    cases (hf e (mem_eligible_of_servesRoot he hroot w l)).symm.trans hv
  | some v =>
    obtain ⟨e', he', hv'⟩ := exists_of_findSome?_eligible datum hf
    rcases hall e' he' with hn | hs
    · cases hn.symm.trans hv'
    · exact hv'.symm.trans hs

theorem exists_entries_eq (hb : u.isBuiltinAlone = true) : ∃ e, u.entries = [e] := by
  obtain ⟨e, he, _⟩ := List.map_eq_singleton_iff.mp (of_decide_eq_true hb)
  exact ⟨e, he⟩

/-- Adapters without a datum do not count, beside a built-in adapter that was alone. -/
theorem findSome?_eligible_of_pads {datum : Adapter σ δ → Option β}
    (hb : u.isBuiltinAlone = true) (hroot : ∀ e ∈ u.entries, e.2.ServesRoot)
    (hp : u'.Pads u fun a => datum a = none) (w' : σ) :
    ((u'.eligible w' l).findSome? fun e => datum e.2) =
      (u.eligible w l).findSome? fun e => datum e.2 := by
  obtain ⟨e, he⟩ := exists_entries_eq hb
  have hmem : e ∈ u.entries := he ▸ List.mem_cons_self
  have honly : ∀ e' ∈ u'.entries, datum e'.2 = none ∨ datum e'.2 = datum e.2 := by
    intro e' he'
    rcases hp.added e' he' with h | h
    · rw [he, List.mem_singleton] at h
      exact Or.inr (h ▸ rfl)
    · exact Or.inl h
  have halone : ((u.eligible w l).findSome? fun e => datum e.2) = datum e.2 := by
    rw [eligible, if_pos hb, he, List.findSome?_singleton]
  rw [halone]
  -- Adapters besides `e` need not serve the root: they only matter if they have a datum.
  cases hd : datum e.2 with
  | none =>
    refine findSome?_eligible_eq_none fun e' he' => ?_
    exact (honly e' he').elim id fun h => h.trans hd
  | some value =>
    refine findSome?_eligible_of_agree datum ⟨e, hp.kept e hmem, hroot e hmem, hd⟩ ?_
    intro e' he'
    exact (honly e' he').imp_right fun h => h.trans hd

end Roster

/-! ## Requests -/

theorem Resolution.ofOption_eq_notFound_iff {o : Option β} : ofOption o = notFound ↔ o = none := by
  cases o <;> simp [ofOption]

theorem Resolution.ofOption_eq_found_iff {o : Option β} {value : β} :
    ofOption o = found value ↔ o = some value := by
  cases o <;> simp [ofOption]

/-- Two pools have the same outcome when the registry of one has nothing but a built-in
    adapter and that of the other has it and adapters without a datum. -/
theorem Pool.Reachable.resolve_eq_of_pads {src' : Source σ δ} {p : Pool src} {p' : Pool src'}
    (hp : p.Reachable) (hp' : p'.Reachable) (hs : src.IsSteady) (hs' : src'.IsSteady)
    {c : Category} (hroot : ∀ e ∈ (p.registry c).1.roster.entries, e.2.ServesRoot)
    {getter : Getter σ δ β} {datum : Adapter σ δ → Locale → Option String → Option β}
    (hget : ∀ a l key w, (getter a l key w).1 = datum a l key) {l : Locale}
    {key : Option String} (expected : Expectation)
    (hb : (p.registry c).1.roster.isBuiltinAlone = true)
    (hpads : (p'.registry c).1.roster.Pads (p.registry c).1.roster
      fun a => datum a l key = none) :
    (p'.resolve c (some l) key expected getter).1 =
      (p.resolve c (some l) key expected getter).1 := by
  rw [hp.resolve_eq hs p.session.world c hget, hp'.resolve_eq hs' p.session.world c hget]
  exact congrArg (Except.ok ∘ Resolution.ofOption)
    (Roster.findSome?_eligible_of_pads hb hroot hpads p.session.world)

/-- Resolution is complete. Let the registered adapters of a category serve the root and the
    getter not look at the world. A request fails exactly if no registered adapter has a
    datum; what it finds is the datum of one; and a datum that all agree on who have one is
    found. So adapters without a datum make no difference to a category with a built-in
    adapter alone, in particular those that are registered in free slots of a catalog. -/
theorem Pool.resolve_complete {p : Pool src} (hp : p.Reachable) (hs : src.IsSteady)
    {c : Category} (hroot : ∀ e ∈ (p.registry c).1.roster.entries, e.2.ServesRoot)
    {getter : Getter σ δ β} {datum : Adapter σ δ → Locale → Option String → Option β}
    (hget : ∀ a l key w, (getter a l key w).1 = datum a l key) (l : Locale)
    (key : Option String) (expected : Expectation) :
    let roster := (p.registry c).1.roster
    let outcome := (p.resolve c (some l) key expected getter).1
    (outcome = .ok .notFound ↔ ∀ e ∈ roster.entries, datum e.2 l key = none) ∧
    (∀ value, outcome = .ok (.found value) →
      ∃ e ∈ roster.entries, datum e.2 l key = some value) ∧
    (∀ value, (∃ e ∈ roster.entries, datum e.2 l key = some value) →
      (∀ e ∈ roster.entries, datum e.2 l key = none ∨ datum e.2 l key = some value) →
      outcome = .ok (.found value)) ∧
    (roster.isBuiltinAlone = true → ∀ {src' : Source σ δ} {p' : Pool src'}, p'.Reachable →
      src'.IsSteady → (p'.registry c).1.roster.Pads roster (fun a => datum a l key = none) →
      (p'.resolve c (some l) key expected getter).1 = outcome) ∧
    (roster.isBuiltinAlone = true → ∀ (t : Catalog σ δ) (n n' : Nat)
      (added : List (Kind × Adapter σ δ)), src = t.toSource n →
      (∀ e ∈ added, t.find? e.1 c = none) → (∀ e ∈ added, e.2.IsSteady) →
      (∀ e ∈ added, datum e.2 l key = none) →
      ∀ {p' : Pool ((t.registerEach c added).toSource n')}, p'.Reachable →
      (p'.resolve c (some l) key expected getter).1 = outcome) := by
  intro roster outcome
  have houtcome : outcome = .ok (.ofOption ((roster.eligible p.session.world l).findSome?
      fun e => datum e.2 l key)) := hp.resolve_eq hs p.session.world c hget l key expected
  refine ⟨?_, ?_, ?_, ?_, ?_⟩
  · rw [houtcome, Except.ok.injEq, Resolution.ofOption_eq_notFound_iff]
    exact Roster.findSome?_eligible_eq_none_iff (fun a => datum a l key) hroot
  · intro value hv
    rw [houtcome, Except.ok.injEq, Resolution.ofOption_eq_found_iff] at hv
    exact Roster.exists_of_findSome?_eligible (fun a => datum a l key) hv
  · intro value hv hall
    obtain ⟨e, he, hd⟩ := hv
    rw [houtcome, Except.ok.injEq, Resolution.ofOption_eq_found_iff]
    exact Roster.findSome?_eligible_of_agree (fun a => datum a l key)
      ⟨e, he, hroot e he, hd⟩ hall
  · intro hb src' p' hp' hs' hpads
    exact hp.resolve_eq_of_pads hp' hs hs' hroot hget expected hb hpads
  · intro hb t n n' added hsrc hfree hsteady hsilent p' hp'
    subst hsrc
    have hall : t.All Adapter.IsSteady := Catalog.all_of_forall_handsOut p.session.world hs
    have hs' := Catalog.isSteady_toSource (hall.registerEach hsteady c) n'
    exact hp.resolve_eq_of_pads hp' hs hs' hroot hget expected hb
      (Catalog.pads_registerEach (hp.offers c) (hp'.offers c) hfree hsilent)

theorem Demo.servesRoot_catalog (preference : List Kind) :
    (Demo.catalog preference).All Adapter.ServesRoot :=
  ((Catalog.all_empty preference).registerAll (fun _ => builtinNames.supports_root) _).register
    (fun _ => pluginNames.supports_root) _ _

/-- The demonstration has a Canadian French name of German, from the built-in adapter. -/
theorem Pool.resolve_complete_demo :
    let entries := (Demo.usedPool.registry .localeName).1.roster.entries
    let datum := fun (a : Adapter Unit (Option NameTable)) (l : Locale) (key : Option String) =>
      a.provider.bind fun t => t.lookup l key
    entries.map Prod.fst = [.builtin, .plugin] ∧
      (∀ e ∈ entries, e.2.ServesRoot) ∧
      (∀ a l key w, (NameTable.getter a l key w).1 = datum a l key) ∧
      (∃ e ∈ entries, datum e.2 Demo.canadianFrench (some "de") = some "allemand") ∧
      (∀ e ∈ entries, datum e.2 Demo.canadianFrench (some "de") = none ∨
        datum e.2 Demo.canadianFrench (some "de") = some "allemand") ∧
      (Demo.usedPool.resolve .localeName (some Demo.canadianFrench) (some "de") .name
        NameTable.getter).1 = .ok (.found "allemand") := by
  intro entries datum
  have hroot : ∀ e ∈ entries, e.2.ServesRoot := fun e he =>
    (Demo.servesRoot_catalog Kind.all).of_handsOut
      ((Demo.reachable_usedPool.offers .localeName).handsOut he)
  have hknown : ∃ e ∈ entries, datum e.2 Demo.canadianFrench (some "de") = some "allemand" := by
    decide
  have hall : ∀ e ∈ entries, datum e.2 Demo.canadianFrench (some "de") = none ∨
      datum e.2 Demo.canadianFrench (some "de") = some "allemand" := by
    decide
  have hget : ∀ a l key w, (NameTable.getter a l key w).1 = datum a l key :=
    fun _ _ _ _ => rfl
  have hcomplete := Pool.resolve_complete Demo.reachable_usedPool Demo.isSteady_source hroot hget
    Demo.canadianFrench (some "de") .name
  exact ⟨by decide, hroot, hget, hknown, hall, hcomplete.2.2.1 "allemand" hknown hall⟩

end LocaleServices

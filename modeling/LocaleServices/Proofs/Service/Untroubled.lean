import LocaleServices.Proofs.Service.Accounts

/-!
  Uses of a pool in which nothing is missing.

  Only a request for an object can find a contract broken, as adapters may lack names
  (`violations_perform`), and each request adds its own failure to those that are counted
  (`Reachable.notFound_perform`). So a pool that has neither count against it stays without
  them (`IsUntroubled.perform`) as long as no object is asked for and every datum is found.
-/

namespace LocaleServices

variable {σ δ α β : Type} {src : Source σ δ}

/-- Whether an object is asked for, with a locale. -/
def Request.owes : Request σ δ α → Bool
  | .resolve _ l _ expected _ => l.isSome && expected = .object
  | .localizedObject .. => true
  | _ => false

/-! ## Registries -/

namespace Registry

theorem violations_availableLocales (r : Registry σ δ) (s : Session σ) :
    (r.availableLocales s).2.2.counters.contractViolations = s.counters.contractViolations := by
  unfold availableLocales
  split
  · rfl
  · obtain ⟨n, hn⟩ := r.counters_collectKeys r.adapters.entries (s.count .availabilityComputation)
    have hkept : (r.collectKeys r.adapters.entries
        (s.count .availabilityComputation)).2.counters.contractViolations =
          s.counters.contractViolations := by
      rw [hn]
      rfl
    exact hkept

theorem violations_kindsFor (r : Registry σ δ) (l : Locale) (s : Session σ) :
    (r.kindsFor l s).2.2.counters.contractViolations = s.counters.contractViolations := by
  unfold kindsFor
  split
  · rfl
  · have hkept : (r.serving l r.preference (s.count .kindsMiss)).2.counters.contractViolations =
        s.counters.contractViolations := by
      rw [(r.testing_serving l r.preference (s.count .kindsMiss)).counters]
      rfl
    exact hkept

theorem violations_supports (k : Kind) (l : Locale) (r : Registry σ δ) (s : Session σ) :
    (r.supports k l s).2.2.counters.contractViolations = s.counters.contractViolations := by
  unfold supports
  split
  · rfl
  · exact congrArg Counters.contractViolations (Session.testing_test _ _ l s).counters

section Names

variable {q : Inquiry σ δ α} (hq : q.expected = .name)

include hq

theorem violations_consult (r : Registry σ δ) (ks : List Kind) (s : Session σ) :
    (r.consult q ks s).2.counters.contractViolations = s.counters.contractViolations := by
  induction ks generalizing s with
  | nil => rfl
  | cons k ks ih =>
    unfold consult
    split
    · exact ih s
    · dsimp only
      split
      · rfl
      · rw [ih]
        simp only [reportMissing, hq]
        rfl

theorem violations_walk (available ds : List Locale) (r : Registry σ δ) (s : Session σ) :
    (walk q available ds r s).2.2.counters.contractViolations =
      s.counters.contractViolations := by
  induction ds generalizing r s with
  | nil => rfl
  | cons d ds ih =>
    unfold walk
    dsimp only
    split
    · have hkinds := r.violations_kindsFor d (s.count .candidateExamined)
      generalize r.kindsFor d (s.count .candidateExamined) = kinds at hkinds ⊢
      have hconsult := violations_consult hq kinds.2.1 kinds.1 kinds.2.2
      split
      · exact hconsult.trans hkinds
      · exact (ih _ _).trans (hconsult.trans hkinds)
    · exact ih r _

theorem violations_resolve (r : Registry σ δ) (s : Session σ) :
    (r.resolve q s).2.2.counters.contractViolations = s.counters.contractViolations := by
  unfold resolve
  split
  · unfold resolveCandidates
    dsimp only
    have havailable := r.violations_availableLocales (s.count .fallbackChain)
    generalize r.availableLocales (s.count .fallbackChain) = available at havailable ⊢
    have hwalk := violations_walk hq available.1 q.locale.candidates available.2.1 available.2.2
    split
    · exact hwalk.trans havailable
    · exact hwalk.trans havailable
  · unfold resolveBuiltin
    dsimp only
    have hconsult := violations_consult hq r [.builtin] (s.count .fastPath)
    split
    · exact hconsult
    · exact hconsult

end Names

end Registry

/-! ## Pools -/

namespace Pool

theorem violations_onRegistry (c : Category)
    {work : Registry σ δ → Session σ → β × Registry σ δ × Session σ}
    (h : ∀ r s, (work r s).2.2.counters.contractViolations = s.counters.contractViolations)
    (p : Pool src) :
    (p.onRegistry c work).2.counters.contractViolations = p.counters.contractViolations :=
  (h _ _).trans (congrArg Counters.contractViolations (builds_registry c p).counters_eq)

theorem violations_availableLocales (c : Category) (p : Pool src) :
    (p.availableLocales c).2.counters.contractViolations = p.counters.contractViolations :=
  violations_onRegistry c Registry.violations_availableLocales p

theorem violations_gatherAvailable (cs : List Category) (p : Pool src) :
    (p.gatherAvailable cs).2.counters.contractViolations = p.counters.contractViolations := by
  induction cs generalizing p with
  | nil => rfl
  | cons c cs ih => exact (ih _).trans (violations_availableLocales c p)

theorem violations_allAvailableLocales (p : Pool src) :
    p.allAvailableLocales.2.counters.contractViolations = p.counters.contractViolations := by
  unfold allAvailableLocales
  split
  · rfl
  · have hgather := violations_gatherAvailable Category.all p
    generalize p.gatherAvailable Category.all = gathered at hgather ⊢
    exact hgather

theorem violations_resolve (c : Category) (locale : Option Locale) (key : Option String)
    (getter : Getter σ δ α) (p : Pool src) :
    (p.resolve c locale key .name getter).2.counters.contractViolations =
      p.counters.contractViolations := by
  cases locale with
  | none => rfl
  | some l => exact violations_onRegistry c (fun r s => Registry.violations_resolve rfl r s) p

/-- Only a request for an object can find a contract broken. -/
theorem violations_perform {q : Request σ δ α} (hq : q.owes = false) (p : Pool src) :
    (p.perform q).2.counters.contractViolations = p.counters.contractViolations := by
  cases q with
  | resolve c locale key expected getter =>
    cases expected with
    | name => exact violations_resolve c locale key getter p
    | object =>
      cases locale with
      | none => rfl
      | some l => cases hq
  | localizedObject => cases hq
  | localizedName c l key getter => exact violations_resolve c (some l) (some key) getter p
  | available c => exact violations_availableLocales c p
  | allAvailable => exact violations_allAvailableLocales p
  | registry c =>
    exact congrArg Counters.contractViolations (builds_registry c p).counters_eq
  | kinds c l => exact violations_onRegistry c (fun r s => r.violations_kindsFor l s) p
  | supports c k l => exact violations_onRegistry c (fun r s => r.violations_supports k l s) p

/-- A request adds its own failure to those that are counted. -/
theorem Reachable.notFound_perform {p : Pool src} (hp : p.Reachable) (q : Request σ δ α) :
    (p.perform q).2.counters.notFound =
      p.counters.notFound + if (p.perform q).1.isNotFound then 1 else 0 := by
  obtain ⟨past, h⟩ := reachable_iff_exists_history.mp hp
  have hbefore := h.accounts.counted_eq (a := .notFound) (fun _ => rfl) fun _ => rfl
  have hafter := (h.perform q).accounts.counted_eq (a := .notFound) (fun _ => rfl) fun _ => rfl
  rw [Account.events_append, ← hbefore] at hafter
  exact hafter.trans (congrArg (p.counters.notFound + ·) (countP_journal q p).2)

/-- A pool in use with no failure and no broken contract to its account. -/
structure IsUntroubled (p : Pool src) : Prop where
  reachable : p.Reachable
  notFound : p.counters.notFound = 0
  violations : p.counters.contractViolations = 0

theorem isUntroubled_fresh (src : Source σ δ) (w : σ) : (Pool.fresh src w).IsUntroubled :=
  ⟨.fresh w, rfl, rfl⟩

theorem IsUntroubled.perform {p : Pool src} (h : p.IsUntroubled) {q : Request σ δ α}
    (hq : q.owes = false) (hfound : (p.perform q).1.isNotFound = false) :
    (p.perform q).2.IsUntroubled := by
  refine ⟨.perform q h.reachable, ?_, (violations_perform hq p).trans h.violations⟩
  rw [h.reachable.notFound_perform q, hfound, h.notFound]
  rfl

theorem IsUntroubled.availableLocales {p : Pool src} (h : p.IsUntroubled) (c : Category) :
    (p.availableLocales c).2.IsUntroubled :=
  h.perform (q := (.available c : Request σ δ Unit)) rfl rfl

theorem IsUntroubled.allAvailableLocales {p : Pool src} (h : p.IsUntroubled) :
    p.allAvailableLocales.2.IsUntroubled :=
  h.perform (q := (.allAvailable : Request σ δ Unit)) rfl rfl

end Pool

end LocaleServices

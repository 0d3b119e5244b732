import LocaleServices.Proofs.Service.Building

/-!
  What holds of the registries of every pool in use.

  `Pool.Reachable` are the pools that come about by requests. A property of registries is
  `Registry.Kept` when new registries have it and finding out available locales or kinds
  does not lose it; every registry of a reachable pool has such a property (`Kept.holds`,
  `Kept.registry`). The steps are proved once, for the walk over candidates, for one request
  and for any row of requests.
-/

namespace LocaleServices

variable {σ δ α β : Type} {src : Source σ δ}

/-- The pools that a fresh pool becomes by requests, whatever these ask for. -/
inductive Pool.Reachable : Pool src → Prop
  | fresh (w : σ) : Reachable (Pool.fresh src w)
  | perform {α : Type} {p : Pool src} (q : Request σ δ α) (h : Reachable p) :
      Reachable (p.perform q).2

theorem Pool.Reachable.run {p : Pool src} (h : p.Reachable) (qs : List (Request σ δ α)) :
    (p.run qs).2.Reachable := by
  induction qs generalizing p with
  | nil => exact h
  | cons q qs ih => exact ih (h.perform q)

/-- A property that new registries have and that finding something out keeps. -/
structure Registry.Kept (src : Source σ δ) (P : Category → Registry σ δ → Prop) : Prop where
  new : ∀ {c r}, r.IsNew src c → P c r
  availableLocales : ∀ {c r} (s : Session σ), P c r → P c (r.availableLocales s).2.1
  kindsFor : ∀ {c r} (l : Locale) (s : Session σ), P c r → P c (r.kindsFor l s).2.1

/-- A property of every registry of a pool. -/
def Pool.Holds (P : Category → Registry σ δ → Prop) (p : Pool src) : Prop :=
  ∀ c r, p.registries.find? c = some r → P c r

namespace Registry.Kept

variable {P : Category → Registry σ δ → Prop} {c : Category}

/-! ## Work on one registry -/

theorem walk (h : Kept src P) (q : Inquiry σ δ α) (available ds : List Locale)
    {r : Registry σ δ} (hr : P c r) (s : Session σ) :
    P c (Registry.walk q available ds r s).2.1 := by
  induction ds generalizing r s with
  | nil => exact hr
  | cons d ds ih =>
    have hk := h.kindsFor d (s.count .candidateExamined) hr
    unfold Registry.walk
    dsimp only
    split
    · split
      · exact hk
      · exact ih hk _
    · exact ih hr _

theorem resolve (h : Kept src P) (q : Inquiry σ δ α) {r : Registry σ δ} (hr : P c r)
    (s : Session σ) : P c (r.resolve q s).2.1 := by
  unfold Registry.resolve
  split
  · have ha := h.availableLocales (s.count .fallbackChain) hr
    unfold Registry.resolveCandidates
    dsimp only
    split
    · exact h.walk q _ _ ha _
    · exact h.walk q _ _ ha _
  · unfold Registry.resolveBuiltin
    dsimp only
    split <;> exact hr

theorem supports (k : Kind) (l : Locale) {r : Registry σ δ} (hr : P c r) (s : Session σ) :
    P c (r.supports k l s).2.1 := by
  unfold Registry.supports
  split <;> exact hr

/-! ## Work on a pool -/

theorem builds (h : Kept src P) {p p' : Pool src} (hb : p.Builds p') (hp : p.Holds P) :
    p'.Holds P := by
  refine hb.invariant (I := Pool.Holds P) (fun hs hq => ?_) hp
  cases hs with
  | start | preference | request | callBack | answer | say => exact hq
  | keep c r p hr =>
    intro c' r' hf
    rw [Table.find?_insert] at hf
    split at hf
    · rename_i he
      cases hf
      exact he ▸ h.new hr
    · exact hq c' r' hf

theorem registry_of_holds (h : Kept src P) {p : Pool src} (hp : p.Holds P) (c : Category) :
    P c (p.registry c).1 :=
  h.builds (Pool.builds_registry c p) hp c _ (Pool.find?_registry c p)

theorem onRegistry (h : Kept src P)
    {work : Registry σ δ → Session σ → β × Registry σ δ × Session σ}
    (hw : ∀ {r} (s : Session σ), P c r → P c (work r s).2.1) {p : Pool src} (hp : p.Holds P) :
    (p.onRegistry c work).2.Holds P := by
  intro c' r' hf
  -- The work is kept under its category; the others have what making the registry left.
  simp only [Pool.onRegistry, Table.find?_insert] at hf
  split at hf
  · rename_i he
    cases hf
    exact he ▸ hw _ (h.registry_of_holds hp c)
  · exact h.builds (Pool.builds_registry c p) hp c' r' hf

theorem gatherAvailable (h : Kept src P) (cs : List Category) {p : Pool src}
    (hp : p.Holds P) : (p.gatherAvailable cs).2.Holds P := by
  induction cs generalizing p with
  | nil => exact hp
  | cons c cs ih => exact ih (h.onRegistry h.availableLocales hp)

theorem allAvailableLocales (h : Kept src P) {p : Pool src} (hp : p.Holds P) :
    p.allAvailableLocales.2.Holds P := by
  unfold Pool.allAvailableLocales
  split
  · exact hp
  · have hg := h.gatherAvailable Category.all hp
    generalize p.gatherAvailable Category.all = gathered at hg ⊢
    exact hg

theorem resolve_pool (h : Kept src P) (c : Category) (locale : Option Locale)
    (key : Option String) (expected : Expectation) (getter : Getter σ δ α) {p : Pool src}
    (hp : p.Holds P) : (p.resolve c locale key expected getter).2.Holds P := by
  cases locale with
  | none => exact hp
  | some l => exact h.onRegistry (fun s hr => h.resolve _ hr s) hp

/-- One request keeps the property. -/
theorem perform (h : Kept src P) (q : Request σ δ α) {p : Pool src} (hp : p.Holds P) :
    (p.perform q).2.Holds P := by
  cases q with
  | resolve c l key expected getter => exact h.resolve_pool c l key expected getter hp
  | localizedObject c l getter => exact h.resolve_pool c (some l) none .object getter hp
  | localizedName c l key getter => exact h.resolve_pool c (some l) (some key) .name getter hp
  | available c => exact h.onRegistry h.availableLocales hp
  | allAvailable => exact h.allAvailableLocales hp
  | registry c => exact h.builds (Pool.builds_registry c p) hp
  | kinds c l => exact h.onRegistry (h.kindsFor l) hp
  | supports c k l => exact h.onRegistry (fun s hr => supports k l hr s) hp

/-- Any row of requests keeps the property. -/
theorem holds (h : Kept src P) {p : Pool src} (hp : p.Reachable) : p.Holds P := by
  induction hp with
  | fresh w =>
    intro c r hf
    cases hf
  | perform q _ ih => exact h.perform q ih

theorem registry (h : Kept src P) {p : Pool src} (hp : p.Reachable) (c : Category) :
    P c (p.registry c).1 :=
  h.registry_of_holds (h.holds hp) c

end Registry.Kept

/-! ## The roster stays -/

namespace Registry

theorem roster_congr {r r' : Registry σ δ} (hp : r'.preference = r.preference)
    (ha : r'.adapters = r.adapters) : r'.roster = r.roster :=
  Roster.ext hp (funext fun k => congrArg (fun t => Table.find? t k) ha)

theorem MadeFor.of_same {c : Category} {r r' : Registry σ δ} (h : r.MadeFor src c)
    (hc : r'.category = r.category) (hp : r'.preference = r.preference)
    (ha : r'.adapters = r.adapters) : r'.MadeFor src c :=
  ⟨hc.trans h.category, roster_congr hp ha ▸ h.offers, ha ▸ h.distinct⟩

theorem kindsFor_same (r : Registry σ δ) (l : Locale) (s : Session σ) :
    (r.kindsFor l s).2.1.category = r.category ∧
      (r.kindsFor l s).2.1.preference = r.preference ∧
      (r.kindsFor l s).2.1.adapters = r.adapters := by
  unfold kindsFor
  split <;> exact ⟨rfl, rfl, rfl⟩

theorem availableLocales_same (r : Registry σ δ) (s : Session σ) :
    (r.availableLocales s).2.1.category = r.category ∧
      (r.availableLocales s).2.1.preference = r.preference ∧
      (r.availableLocales s).2.1.adapters = r.adapters := by
  unfold availableLocales
  split <;> exact ⟨rfl, rfl, rfl⟩

/-- Every registry is made for its category and stays so. -/
theorem kept_madeFor (src : Source σ δ) : Kept src fun c r => r.MadeFor src c where
  new := fun h => h.toMadeFor
  availableLocales := fun {c r} s h => by
    obtain ⟨hc, hp, ha⟩ := r.availableLocales_same s
    exact h.of_same hc hp ha
  kindsFor := fun {c r} l s h => by
    obtain ⟨hc, hp, ha⟩ := r.kindsFor_same l s
    exact h.of_same hc hp ha

end Registry

end LocaleServices

import LocaleServices.Proofs.Service.Journal

/-!
  Pools with a history.

  `Pool.journal` lists the events of a request, and `Pool.History` are the pools that come
  about by requests, each with all events so far (`reachable_iff_exists_history`).
  `Pool.Step` are the single steps of a pool: making registries, one step of work on a
  registry, and giving or finding out the available locales of all categories. Each request
  is a row of such steps (`row_perform`), which gives the induction principle of this theory
  (`History.invariant`): what each step keeps holds of every history. No step replaces a
  registry or forgets what one remembers (`Step.retains`).
-/

namespace LocaleServices

variable {σ δ α β : Type} {src : Source σ δ}

/-! ## What a registry remembers -/

namespace Registry

/-- How often the available locales have been found out. -/
def computations (r : Registry σ δ) : Nat := if r.available.isSome then 1 else 0

theorem IsNew.computations_eq {c : Category} {r : Registry σ δ} (h : r.IsNew src c) :
    r.computations = 0 := by
  simp [computations, h.available]

/-- Everything that is remembered stays. -/
structure Grows (r r' : Registry σ δ) : Prop where
  available : ∀ {ls}, r.available = some ls → r'.available = some ls
  kinds : ∀ {l ks}, r.kindsByLocale.find? l = some ks → r'.kindsByLocale.find? l = some ks

theorem Grows.refl (r : Registry σ δ) : r.Grows r := ⟨id, id⟩

theorem grows_availableLocales (r : Registry σ δ) (s : Session σ) :
    r.Grows (r.availableLocales s).2.1 := by
  unfold availableLocales
  split
  · exact .refl r
  · rename_i hn
    refine ⟨fun h => ?_, id⟩
    rw [hn] at h
    cases h

theorem grows_kindsFor (r : Registry σ δ) (l : Locale) (s : Session σ) :
    r.Grows (r.kindsFor l s).2.1 := by
  unfold kindsFor
  split
  · exact .refl r
  · rename_i hn
    refine ⟨id, fun {l' ks} h => ?_⟩
    rw [Table.find?_insert, if_neg]
    · exact h
    · rintro rfl
      rw [hn] at h
      cases h

/-- What was answered is remembered. -/
theorem available_availableLocales (r : Registry σ δ) (s : Session σ) :
    (r.availableLocales s).2.1.available = some (r.availableLocales s).1 := by
  unfold availableLocales
  split
  · assumption
  · rfl

theorem find?_kindsFor (r : Registry σ δ) (l : Locale) (s : Session σ) :
    (r.kindsFor l s).2.1.kindsByLocale.find? l = some (r.kindsFor l s).1 := by
  unfold kindsFor
  split
  · assumption
  · exact Table.find?_insert_self _ _ _

/-- What is remembered is answered. -/
theorem availableLocales_of_some {r : Registry σ δ} {ls : List Locale}
    (h : r.available = some ls) (s : Session σ) : (r.availableLocales s).1 = ls := by
  simp only [availableLocales, h]

theorem kindsFor_of_some {r : Registry σ δ} {l : Locale} {ks : List Kind}
    (h : r.kindsByLocale.find? l = some ks) (s : Session σ) : (r.kindsFor l s).1 = ks := by
  simp only [kindsFor, h]

/-- The same registry later on, when it may have found out more. -/
structure Becomes (r r' : Registry σ δ) : Prop extends r.Grows r' where
  serial : r'.serial = r.serial
  category : r'.category = r.category
  preference : r'.preference = r.preference
  adapters : r'.adapters = r.adapters

theorem Becomes.refl (r : Registry σ δ) : r.Becomes r := ⟨.refl r, rfl, rfl, rfl, rfl⟩

theorem Becomes.trans {r r' r'' : Registry σ δ} (h : r.Becomes r') (h' : r'.Becomes r'') :
    r.Becomes r'' where
  available := fun hls => h'.available (h.available hls)
  kinds := fun hks => h'.kinds (h.kinds hks)
  serial := h'.serial.trans h.serial
  category := h'.category.trans h.category
  preference := h'.preference.trans h.preference
  adapters := h'.adapters.trans h.adapters

theorem becomes_availableLocales (r : Registry σ δ) (s : Session σ) :
    r.Becomes (r.availableLocales s).2.1 := by
  obtain ⟨hc, hp, ha⟩ := r.availableLocales_same s
  refine ⟨r.grows_availableLocales s, ?_, hc, hp, ha⟩
  unfold availableLocales
  split <;> rfl

theorem becomes_kindsFor (r : Registry σ δ) (l : Locale) (s : Session σ) :
    r.Becomes (r.kindsFor l s).2.1 := by
  obtain ⟨hc, hp, ha⟩ := r.kindsFor_same l s
  refine ⟨r.grows_kindsFor l s, ?_, hc, hp, ha⟩
  unfold kindsFor
  split <;> rfl

theorem Step.becomes {c : Category} {x y : Registry σ δ × Session σ} {log : List Event}
    (h : Step c x log y) : x.1.Becomes y.1 := by
  cases h with
  | available r s => exact r.becomes_availableLocales s
  | kinds l r s => exact r.becomes_kindsFor l s
  | start | examine | test | answered | passed | report | fail => exact .refl _

theorem becomes_of_row {c : Category} {x y : Registry σ δ × Session σ} {log : List Event}
    (h : Row (Step c) x log y) : x.1.Becomes y.1 := by
  induction h with
  | nil x => exact .refl x.1
  | cons hs _ ih => exact hs.becomes.trans ih

end Registry

namespace Pool

/-! ## What a pool remembers -/

/-- The remembered available locales of a category. -/
def available? (c : Category) (p : Pool src) : Option (List Locale) :=
  (p.registries.find? c).bind Registry.available

/-- The remembered kinds that serve a locale in a category. -/
def kinds? (c : Category) (l : Locale) (p : Pool src) : Option (List Kind) :=
  (p.registries.find? c).bind fun r => r.kindsByLocale.find? l

/-- The remembered available locales of all categories together, in ascending order. -/
def union (p : Pool src) : List Locale :=
  Ascending.ofList (Category.all.flatMap fun c => (p.available? c).getD [])

/-- A pool after work on the registry of a category. -/
def afterWork (p : Pool src) (c : Category) (done : Registry σ δ × Session σ) : Pool src :=
  { p with registries := p.registries.insert c done.1, session := done.2 }

theorem find?_afterWork (p : Pool src) (c c' : Category) (done : Registry σ δ × Session σ) :
    (p.afterWork c done).registries.find? c' =
      if c = c' then some done.1 else p.registries.find? c' :=
  Table.find?_insert p.registries c c' done.1

/-- The registries of a pool remember what they did. -/
structure Keeps (p p' : Pool src) : Prop where
  available : ∀ {c ls}, p.available? c = some ls → p'.available? c = some ls
  kinds : ∀ {c l ks}, p.kinds? c l = some ks → p'.kinds? c l = some ks

/-- The registries of a pool are still there, none of them replaced by another. -/
def Retains (p p' : Pool src) : Prop :=
  ∀ c r, p.registries.find? c = some r →
    ∃ r', p'.registries.find? c = some r' ∧ r.Becomes r'

theorem Retains.refl (p : Pool src) : p.Retains p := fun _ r hr => ⟨r, hr, .refl r⟩

theorem Retains.trans {p p' p'' : Pool src} (h : p.Retains p') (h' : p'.Retains p'') :
    p.Retains p'' := fun c r hr => by
  obtain ⟨r', hr', hb⟩ := h c r hr
  obtain ⟨r'', hr'', hb'⟩ := h' c r' hr'
  exact ⟨r'', hr'', hb.trans hb'⟩

theorem Retains.keeps {p p' : Pool src} (h : p.Retains p') : p.Keeps p' where
  available := fun {c ls} ha => by
    obtain ⟨r, hr, hls⟩ := Option.bind_eq_some_iff.mp ha
    obtain ⟨r', hr', hb⟩ := h c r hr
    exact Option.bind_eq_some_iff.mpr ⟨r', hr', hb.available hls⟩
  kinds := fun {c l ks} hk => by
    obtain ⟨r, hr, hks⟩ := Option.bind_eq_some_iff.mp hk
    obtain ⟨r', hr', hb⟩ := h c r hr
    exact Option.bind_eq_some_iff.mpr ⟨r', hr', hb.kinds hks⟩

/-! ## Steps -/

/-- One step of a pool. -/
inductive Step : Pool src → List Event → Pool src → Prop
  | build {p p' : Pool src} (h : BuildStep p p') : Step p [] p'
  | work {p : Pool src} {c : Category} {r : Registry σ δ} {log : List Event}
      {done : Registry σ δ × Session σ} (hf : p.registries.find? c = some r)
      (h : Registry.Step c (r, p.session) log done) : Step p log (p.afterWork c done)
  | known {p : Pool src} {ls : List Locale} (h : p.allAvailable = some ls) :
      Step p [.allAvailable ls] p
  | unite (p : Pool src) (h : ∀ c, (p.available? c).isSome) :
      Step p [.allAvailable p.union]
        ({ p with allAvailable := some p.union }.say (.allAvailableComputed p.union.length))

theorem BuildStep.retains {p p' : Pool src} (h : BuildStep p p') : p.Retains p' := by
  intro c r hr
  cases h with
  | start | preference | request | callBack | answer | say => exact ⟨r, hr, .refl r⟩
  | keep c' r' p _ hp =>
    have hne : c' ≠ c := by
      rintro rfl
      rw [hp] at hr
      cases hr
    exact ⟨r, (Table.find?_insert_of_ne p.registries r' hne).trans hr, .refl r⟩

/-- A new registry adds nothing to a sum over what registries remember. -/
theorem BuildStep.total_eq {f : Registry σ δ → Nat}
    (hf : ∀ {c : Category} {r : Registry σ δ}, r.IsNew src c → f r = 0) {p p' : Pool src}
    (h : BuildStep p p') : p'.registries.total f = p.registries.total f := by
  cases h with
  | start | preference | request | callBack | answer | say => rfl
  | keep c r p hr hp =>
    have htotal := Table.total_insert f p.registries c r
    rw [hp, hf hr] at htotal
    exact htotal

theorem retains_afterWork {p : Pool src} {c : Category} {r : Registry σ δ}
    (hf : p.registries.find? c = some r) {done : Registry σ δ × Session σ}
    (h : r.Becomes done.1) : p.Retains (p.afterWork c done) := by
  intro c' r' hr'
  rw [find?_afterWork]
  by_cases hc : c = c'
  · subst hc
    rw [hf, Option.some.injEq] at hr'
    exact ⟨done.1, if_pos rfl, hr' ▸ h⟩
  · exact ⟨r', (if_neg hc).trans hr', .refl r'⟩

/-- No step replaces a registry, or forgets anything. -/
theorem Step.retains {p p' : Pool src} {log : List Event} (h : Step p log p') :
    p.Retains p' := by
  cases h with
  | build h => exact h.retains
  | work hf h => exact retains_afterWork hf h.becomes
  | known | unite => exact .refl p

theorem retains_of_row {p p' : Pool src} {log : List Event} (h : Row Step p log p') :
    p.Retains p' := by
  induction h with
  | nil p => exact .refl p
  | cons hs _ ih => exact hs.retains.trans ih

/-! ## Operations as rows of steps -/

theorem row_builds {p p' : Pool src} (h : p.Builds p') : Row Step p [] p' := by
  induction h with
  | refl => exact .nil p
  | tail _ hs ih => exact ih.trans (.single (.build hs))

theorem row_afterWork {c : Category} {x y : Registry σ δ × Session σ} {log : List Event}
    (h : Row (Registry.Step c) x log y) {p : Pool src}
    (hf : p.registries.find? c = some x.1) (hs : p.session = x.2) :
    Row Step p log (p.afterWork c y) := by
  induction h generalizing p with
  | nil x =>
    have hp : p.afterWork c x = p := by
      rw [afterWork, Table.insert_of_find? hf, ← hs]
    rw [hp]
    exact .nil p
  | @cons x y z log log' h _ ih =>
    have hz : (p.afterWork c y).afterWork c z = p.afterWork c z := by
      simp only [afterWork, Table.insert_insert]
    rw [← hz]
    have hstep : Registry.Step c (x.1, p.session) log y := hs ▸ h
    exact .cons (.work hf hstep) (ih ((find?_afterWork p c c y).trans (if_pos rfl)) rfl)

/-- Work on the registry of a category. -/
theorem row_onRegistry {c : Category}
    {work : Registry σ δ → Session σ → β × Registry σ δ × Session σ}
    {log : Registry σ δ → Session σ → List Event}
    (h : ∀ r s, Row (Registry.Step c) (r, s) (log r s) (work r s).2) (p : Pool src) :
    Row Step p (log (p.registry c).1 (p.registry c).2.session) (p.onRegistry c work).2 :=
  (row_builds (builds_registry c p)).trans
    (row_afterWork (h _ _) (find?_registry c p) rfl)

/-! ## Journals -/

def availabilityJournal (c : Category) (p : Pool src) : List Event :=
  (p.registry c).1.availabilityJournal c (p.registry c).2.session

def gatherJournal : List Category → Pool src → List Event
  | [], _ => []
  | c :: cs, p => p.availabilityJournal c ++ gatherJournal cs (p.availableLocales c).2

/-- A request without a locale leaves no trace. -/
def resolveJournal (c : Category) (locale : Option Locale) (key : Option String)
    (expected : Expectation) (getter : Getter σ δ α) (p : Pool src) : List Event :=
  match locale with
  | none => []
  | some l =>
    (p.registry c).1.resolveJournal c ⟨l, key, expected, getter⟩ (p.registry c).2.session

/-- The events of a request. -/
def journal (p : Pool src) : Request σ δ α → List Event
  | .resolve c l key expected getter => p.resolveJournal c l key expected getter
  | .localizedObject c l getter => p.resolveJournal c (some l) none .object getter
  | .localizedName c l key getter => p.resolveJournal c (some l) (some key) .name getter
  | .available c => p.availabilityJournal c
  | .allAvailable =>
    (if p.allAvailable.isSome then [] else p.gatherJournal Category.all) ++
      [.allAvailable p.allAvailableLocales.1]
  | .registry _ => []
  | .kinds c l => [.kinds c l (p.kindsFor c l).1]
  | .supports _ _ _ => []

/-- The events of requests in order. -/
def journals (p : Pool src) : List (Request σ δ α) → List Event
  | [] => []
  | q :: qs => p.journal q ++ journals (p.perform q).2 qs

/-! ### Requests as rows of steps -/

theorem row_availableLocales (c : Category) (p : Pool src) :
    Row Step p (p.availabilityJournal c) (p.availableLocales c).2 :=
  row_onRegistry (fun r s => .single (.available r s)) p

theorem row_gatherAvailable (cs : List Category) (p : Pool src) :
    Row Step p (p.gatherJournal cs) (p.gatherAvailable cs).2 := by
  induction cs generalizing p with
  | nil => exact .nil p
  | cons c cs ih => exact (row_availableLocales c p).trans (ih _)

theorem available?_onRegistry (c : Category)
    (work : Registry σ δ → Session σ → β × Registry σ δ × Session σ) (p : Pool src) :
    (p.onRegistry c work).2.available? c =
      (work (p.registry c).1 (p.registry c).2.session).2.1.available := by
  simp only [onRegistry, available?, Table.find?_insert_self, Option.bind_some]

theorem available?_availableLocales (c : Category) (p : Pool src) :
    (p.availableLocales c).2.available? c = some (p.availableLocales c).1 :=
  (available?_onRegistry c _ p).trans (Registry.available_availableLocales _ _)

/-- What was gathered is what is remembered in the end. -/
theorem gatherAvailable_eq (cs : List Category) (p : Pool src) :
    (∀ c ∈ cs, ((p.gatherAvailable cs).2.available? c).isSome) ∧
      (p.gatherAvailable cs).1 =
        cs.flatMap fun c => ((p.gatherAvailable cs).2.available? c).getD [] := by
  induction cs generalizing p with
  | nil => simp [gatherAvailable]
  | cons c cs ih =>
    obtain ⟨hsome, heq⟩ := ih (p.availableLocales c).2
    -- The first category is remembered through the rest of the gathering.
    have hrest := retains_of_row (row_gatherAvailable cs (p.availableLocales c).2)
    have hfirst := hrest.keeps.available (available?_availableLocales c p)
    constructor
    · intro c' hc'
      rcases List.mem_cons.mp hc' with rfl | hc'
      · exact Option.isSome_of_eq_some hfirst
      · exact hsome c' hc'
    · simp only [gatherAvailable, List.flatMap_cons, hfirst, Option.getD_some, ← heq]

theorem row_allAvailableLocales (p : Pool src) :
    Row Step p
      ((if p.allAvailable.isSome then [] else p.gatherJournal Category.all) ++
        [.allAvailable p.allAvailableLocales.1])
      p.allAvailableLocales.2 := by
  cases h : p.allAvailable with
  | some ls =>
    simp only [allAvailableLocales, h, Option.isSome_some, if_true, List.nil_append]
    exact .single (.known h)
  | none =>
    obtain ⟨hsome, heq⟩ := gatherAvailable_eq Category.all p
    have hunite := Step.unite (p.gatherAvailable Category.all).2
      fun c => hsome c (Category.mem_all c)
    have hunion : (p.gatherAvailable Category.all).2.union =
        Ascending.ofList (p.gatherAvailable Category.all).1 := by rw [union, ← heq]
    rw [hunion] at hunite
    simp only [allAvailableLocales, h, Option.isSome_none, Bool.false_eq_true, if_false]
    exact (row_gatherAvailable Category.all p).trans (.single hunite)

theorem row_resolve (c : Category) (locale : Option Locale) (key : Option String)
    (expected : Expectation) (getter : Getter σ δ α) (p : Pool src) :
    Row Step p (p.resolveJournal c locale key expected getter)
      (p.resolve c locale key expected getter).2 := by
  cases locale with
  | none => exact .nil p
  | some l => exact row_onRegistry (fun r s => r.row_resolve c ⟨l, key, expected, getter⟩ s) p

theorem row_supports (c : Category) (k : Kind) (l : Locale) (p : Pool src) :
    Row Step p [] (p.supports c k l).2 :=
  row_onRegistry (fun r s => Registry.row_supports c k l r s) p

/-- Every request is a row of steps with the events of its journal. -/
theorem row_perform (q : Request σ δ α) (p : Pool src) :
    Row Step p (p.journal q) (p.perform q).2 := by
  cases q with
  | resolve c l key expected getter => exact row_resolve c l key expected getter p
  | localizedObject c l getter => exact row_resolve c (some l) none .object getter p
  | localizedName c l key getter => exact row_resolve c (some l) (some key) .name getter p
  | available c => exact row_availableLocales c p
  | allAvailable => exact row_allAvailableLocales p
  | registry c => exact row_builds (builds_registry c p)
  | kinds c l => exact row_onRegistry (fun r s => .single (.kinds l r s)) p
  | supports c k l => exact row_supports c k l p

/-! ## Histories -/

/-- The pools that a fresh pool becomes by requests, with all events so far. -/
inductive History : List Event → Pool src → Prop
  | fresh (w : σ) : History [] (Pool.fresh src w)
  | perform {α : Type} {past : List Event} {p : Pool src} (q : Request σ δ α)
      (h : History past p) : History (past ++ p.journal q) (p.perform q).2

theorem History.run {past : List Event} {p : Pool src} (h : p.History past)
    (qs : List (Request σ δ α)) : (p.run qs).2.History (past ++ p.journals qs) := by
  induction qs generalizing past p with
  | nil => exact (List.append_nil past).symm ▸ h
  | cons q qs ih =>
    rw [journals, ← List.append_assoc]
    exact ih (h.perform q)

/-- The pools with a history are those that come about by requests. -/
theorem reachable_iff_exists_history {p : Pool src} :
    p.Reachable ↔ ∃ past, p.History past := by
  constructor
  · intro h
    induction h with
    | fresh w => exact ⟨[], .fresh w⟩
    | perform q _ ih =>
      obtain ⟨past, hp⟩ := ih
      exact ⟨_, .perform q hp⟩
  · rintro ⟨past, h⟩
    induction h with
    | fresh w => exact .fresh w
    | perform q _ ih => exact .perform q ih

/-- What holds at first and is kept by each step holds of every history. -/
theorem History.invariant {I : List Event → Pool src → Prop}
    (fresh : ∀ w, I [] (Pool.fresh src w))
    (step : ∀ {past p log p'}, Step p log p' → I past p → I (past ++ log) p')
    {past : List Event} {p : Pool src} (h : p.History past) : I past p := by
  induction h with
  | fresh w => exact fresh w
  | perform q _ ih => exact (row_perform q _).invariant step ih

end Pool

end LocaleServices

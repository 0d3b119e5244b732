import LocaleServices.Proofs.Service.Kept

/-!
  What a registry is asked, in order.

  An `Event` is one question to a pool or to one of its registries, with its answer, or one
  thing that only happens on the way to an answer. The journals (`availabilityJournal`,
  `walkJournal`, `resolveJournal`) list the events of an operation. `Registry.Step` are the
  single steps of work on a registry, each labelled with its events, and `Row` strings such
  steps together. Main statement: resolving is a row of steps with the events of its journal
  (`row_resolve`), so that what each step keeps is kept by the whole (`Row.invariant`).
-/

namespace LocaleServices

variable {σ δ α : Type}

/-! ## Events -/

inductive Event
  /-- A datum is asked for. -/
  | asked (category : Category) (locale : Locale)
  /-- A candidate comes up for a request. -/
  | examined (category : Category) (candidate : Locale)
  /-- The kinds that serve a locale are asked for. -/
  | kinds (category : Category) (locale : Locale) (answer : List Kind)
  /-- The available locales of a category are found out. -/
  | computed (category : Category)
  /-- The available locales of a category are asked for. -/
  | available (category : Category) (answer : List Locale)
  /-- Nobody has the datum that was asked for. -/
  | notFound (category : Category) (locale : Locale)
  /-- The available locales of all categories together are asked for. -/
  | allAvailable (answer : List Locale)
deriving DecidableEq

/-! ## Rows of steps -/

/-- Steps one after the other, with all their events. -/
inductive Row {S E : Type} (Step : S → List E → S → Prop) : S → List E → S → Prop
  | nil (x : S) : Row Step x [] x
  | cons {x y z : S} {log log' : List E} (h : Step x log y) (h' : Row Step y log' z) :
      Row Step x (log ++ log') z

namespace Row

variable {S E : Type} {Step : S → List E → S → Prop} {x y z : S} {log log' : List E}

theorem single (h : Step x log y) : Row Step x log y := by
  have hrow := Row.cons h (.nil y)
  rwa [List.append_nil] at hrow

theorem trans (h : Row Step x log y) (h' : Row Step y log' z) : Row Step x (log ++ log') z := by
  induction h with
  | nil => exact h'
  | cons hs _ ih =>
    rw [List.append_assoc]
    exact .cons hs (ih h')

/-- What holds of a past and a state, and is kept by each step, is kept by a row. -/
theorem invariant {I : List E → S → Prop}
    (step : ∀ {past x log y}, Step x log y → I past x → I (past ++ log) y)
    (h : Row Step x log y) {past : List E} (hx : I past x) : I (past ++ log) y := by
  induction h generalizing past with
  | nil => rwa [List.append_nil]
  | cons hs _ ih =>
    rw [← List.append_assoc]
    exact ih (step hs hx)

end Row

namespace Registry

/-! ## Journals -/

/-- Asking for the available locales. -/
def availabilityJournal (c : Category) (r : Registry σ δ) (s : Session σ) : List Event :=
  (if r.available.isSome then [] else [.computed c]) ++ [.available c (r.availableLocales s).1]

/-- Going through candidates. -/
def walkJournal (c : Category) (q : Inquiry σ δ α) (available : List Locale) :
    List Locale → Registry σ δ → Session σ → List Event
  | [], _, _ => []
  | d :: ds, r, s =>
    let s := s.count .candidateExamined
    .examined c d ::
      if d = .root ∨ d ∈ available then
        let kinds := r.kindsFor d s
        let answer := kinds.2.1.consult q kinds.1 kinds.2.2
        .kinds c d kinds.1 ::
          match answer.1 with
          | some _ => []
          | none => walkJournal c q available ds kinds.2.1 answer.2
      else walkJournal c q available ds r s

/-- What is to be said of an outcome. -/
def outcomeJournal (c : Category) (l : Locale) : Resolution α → List Event
  | .found _ => []
  | .notFound => [.notFound c l]

/-- Asking for a datum; the short way examines no candidates. -/
def resolveJournal (c : Category) (r : Registry σ δ) (q : Inquiry σ δ α) (s : Session σ) :
    List Event :=
  let available := r.availableLocales (s.count .fallbackChain)
  .asked c q.locale ::
    ((if r.hasExternal then
        r.availabilityJournal c (s.count .fallbackChain) ++
          walkJournal c q available.1 q.locale.candidates available.2.1 available.2.2
      else []) ++
      outcomeJournal c q.locale (r.resolve q s).1)

/-! ## Steps -/

/-- One step of work on the registry of a category. -/
inductive Step (c : Category) :
    Registry σ δ × Session σ → List Event → Registry σ δ × Session σ → Prop
  | start {way : Counter} (h : way = .fastPath ∨ way = .fallbackChain) (l : Locale)
      (r : Registry σ δ) (s : Session σ) : Step c (r, s) [.asked c l] (r, s.count way)
  | examine (d : Locale) (r : Registry σ δ) (s : Session σ) :
      Step c (r, s) [.examined c d] (r, s.count .candidateExamined)
  | available (r : Registry σ δ) (s : Session σ) :
      Step c (r, s) (r.availabilityJournal c s) (r.availableLocales s).2
  | kinds (l : Locale) (r : Registry σ δ) (s : Session σ) :
      Step c (r, s) [.kinds c l (r.kindsFor l s).1] (r.kindsFor l s).2
  | test (k : Kind) (a : Adapter σ δ) (l : Locale) (r : Registry σ δ) (s : Session σ) :
      Step c (r, s) [] (r, (s.test a (r.addressee k a) l).2)
  | answered {α : Type} {q : Inquiry σ δ α} {k : Kind} {a : Adapter σ δ} {r : Registry σ δ}
      {s : Session σ} {value : α}
      (h : (s.get q.getter a (r.addressee k a) q.locale q.key q.expected).1 = some value) :
      Step c (r, s) [] (r, (s.get q.getter a (r.addressee k a) q.locale q.key q.expected).2)
  | passed {α : Type} {q : Inquiry σ δ α} {k : Kind} {a : Adapter σ δ} {r : Registry σ δ}
      {s : Session σ}
      (h : (s.get q.getter a (r.addressee k a) q.locale q.key q.expected).1 = none) :
      Step c (r, s) []
        (r, reportMissing q k a
          (s.get q.getter a (r.addressee k a) q.locale q.key q.expected).2)
  | report (m : Message) (r : Registry σ δ) (s : Session σ) : Step c (r, s) [] (r, s.say m)
  | fail (l : Locale) (r : Registry σ δ) (s : Session σ) :
      Step c (r, s) [.notFound c l] (r, s.count .notFound)

/-- What new registries have and finding something out keeps is kept by each step. -/
theorem Kept.step {src : Source σ δ} {P : Category → Registry σ δ → Prop} (h : Kept src P)
    {c : Category} {x y : Registry σ δ × Session σ} {log : List Event} (hs : Step c x log y)
    (hx : P c x.1) : P c y.1 := by
  cases hs with
  | available r s => exact h.availableLocales s hx
  | kinds l r s => exact h.kindsFor l s hx
  | start | examine | test | answered | passed | report | fail => exact hx

/-! ## Operations as rows of steps -/

variable (c : Category) (q : Inquiry σ δ α)

theorem row_consult (r : Registry σ δ) (ks : List Kind) (s : Session σ) :
    Row (Step c) (r, s) [] (r, (r.consult q ks s).2) := by
  induction ks generalizing s with
  | nil => exact .nil _
  | cons k ks ih =>
    unfold consult
    split
    · exact ih s
    · rename_i a _
      dsimp only
      split
      · rename_i value hg
        exact .single (.answered hg)
      · rename_i hg
        exact .cons (.passed hg) (ih _)

theorem row_walk (available ds : List Locale) (r : Registry σ δ) (s : Session σ) :
    Row (Step c) (r, s) (walkJournal c q available ds r s) (walk q available ds r s).2 := by
  induction ds generalizing r s with
  | nil => exact .nil _
  | cons d ds ih =>
    by_cases hd : d = .root ∨ d ∈ available
    · simp only [walk, walkJournal, if_pos hd]
      refine Row.cons (Step.examine d r s) ?_
      refine Row.cons (Step.kinds d r (s.count .candidateExamined)) ?_
      generalize r.kindsFor d (s.count .candidateExamined) = kinds
      have hconsult := row_consult c q kinds.2.1 kinds.1 kinds.2.2
      generalize kinds.2.1.consult q kinds.1 kinds.2.2 = answer at hconsult ⊢
      obtain ⟨found, s'⟩ := answer
      cases found with
      | some value => exact hconsult
      | none => exact hconsult.trans (ih kinds.2.1 s')
    · simp only [walk, walkJournal, if_neg hd]
      exact Row.cons (Step.examine d r s) (ih r _)

theorem row_supports (k : Kind) (l : Locale) (r : Registry σ δ) (s : Session σ) :
    Row (Step c) (r, s) [] (r.supports k l s).2 := by
  unfold supports
  split
  · exact .nil _
  · exact .single (.test k _ l r s)

/-- Resolving is a row of steps with the events of its journal. -/
theorem row_resolve (r : Registry σ δ) (s : Session σ) :
    Row (Step c) (r, s) (r.resolveJournal c q s) (r.resolve q s).2 := by
  unfold resolveJournal resolve
  dsimp only
  by_cases hr : r.hasExternal
  · -- The available locales, the candidates, and word of a failure.
    rw [if_pos hr, if_pos hr, List.append_assoc]
    refine Row.cons (Step.start (Or.inr rfl) q.locale r s) ?_
    refine Row.cons (Step.available r (s.count .fallbackChain)) ?_
    unfold resolveCandidates
    dsimp only
    generalize r.availableLocales (s.count .fallbackChain) = available
    have hwalk := row_walk c q available.1 q.locale.candidates available.2.1 available.2.2
    generalize walk q available.1 q.locale.candidates available.2.1 available.2.2 = answer
      at hwalk ⊢
    obtain ⟨found, r', s'⟩ := answer
    cases found with
    | some value => exact hwalk.trans (.nil _)
    | none => exact hwalk.trans (Row.cons (Step.report _ r' s') (.single (Step.fail _ r' _)))
  · -- The built-in adapter alone.
    rw [if_neg hr, if_neg hr, List.nil_append]
    refine Row.cons (Step.start (Or.inl rfl) q.locale r s) ?_
    unfold resolveBuiltin
    dsimp only
    have hconsult := row_consult c q r [.builtin] (s.count .fastPath)
    generalize r.consult q [.builtin] (s.count .fastPath) = answer at hconsult ⊢
    obtain ⟨found, s'⟩ := answer
    cases found with
    | some value => exact hconsult
    | none => exact hconsult.trans (.single (Step.fail _ r s'))

end Registry

end LocaleServices

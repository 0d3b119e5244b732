import LocaleServices.Locale.AvailabilityKey
import LocaleServices.Locale.Candidates
import LocaleServices.Locale.Order
import LocaleServices.Service.Session
import LocaleServices.Table

/-!
  The registry of one category: its adapters, and what it has found out about them.

  The adapters and their ranking are fixed when the registry is made. Two answers are
  remembered: the available locales, computed once, and the kinds that serve a locale, per
  locale. `resolve` asks adapters for a datum: the built-in one at once when it is alone, and
  otherwise those that serve a candidate of the request, candidate by candidate. A candidate
  other than the root is passed over unless it is available; the getter always sees the
  requested locale.
-/

namespace LocaleServices

structure Registry (σ δ : Type) where
  serial : Nat
  category : Category
  preference : List Kind
  adapters : Table Kind (Adapter σ δ)
  kindsByLocale : Table Locale (List Kind)
  available : Option (List Locale)

/-- What is asked of the adapters of a registry. -/
structure Inquiry (σ δ α : Type) where
  locale : Locale
  key : Option String
  expected : Expectation
  getter : Getter σ δ α

namespace Registry

variable {σ δ α : Type}

def adapter? (r : Registry σ δ) (k : Kind) : Option (Adapter σ δ) := r.adapters.find? k

/-- The kinds that have an adapter, in order of preference. -/
def adapterKinds (r : Registry σ δ) : List Kind := r.preference.filter r.adapters.contains

/-- Whether there is anything but the built-in adapter alone. -/
def hasExternal (r : Registry σ δ) : Bool := r.adapters.keys ≠ [.builtin]

def addressee (r : Registry σ δ) (k : Kind) (a : Adapter σ δ) : Addressee :=
  ⟨r.category, k, a.label⟩

/-! ## Available locales -/

/-- Counts and reports a listed locale whose extensions cannot be cleared. -/
def reportDegradation (s : Session σ) (l : Locale) : Session σ :=
  match l.degradation? with
  | some fault => (s.say (.scriptLost l fault)).count .degradedNormalization
  | none => s

/-- The keys of everything that some adapters list. -/
def collectKeys (r : Registry σ δ) :
    List (Kind × Adapter σ δ) → Session σ → List Locale × Session σ
  | [], s => ([], s)
  | (k, a) :: rest, s =>
    let listed := s.list a (r.addressee k a) .availability
    let more := collectKeys r rest (listed.1.foldl reportDegradation listed.2)
    (listed.1.map Locale.availabilityKey ++ more.1, more.2)

/-- The locales that some adapter has data for, without the root; computed once. -/
def availableLocales (r : Registry σ δ) (s : Session σ) :
    List Locale × Registry σ δ × Session σ :=
  match r.available with
  | some locales => (locales, r, s)
  | none =>
    let keys := r.collectKeys r.adapters.entries (s.count .availabilityComputation)
    let locales := (Ascending.ofList keys.1).filter (· ≠ .root)
    (locales, { r with available := some locales },
      keys.2.say (.availableComputed r.category locales.length))

/-! ## Kinds that serve a locale -/

/-- Those of some kinds whose adapter serves a locale. -/
def serving (r : Registry σ δ) (l : Locale) : List Kind → Session σ → List Kind × Session σ
  | [], s => ([], s)
  | k :: ks, s =>
    match r.adapter? k with
    | none => serving r l ks s
    | some a =>
      let answer := s.test a (r.addressee k a) l
      let more := serving r l ks answer.2
      (if answer.1 then k :: more.1 else more.1, more.2)

/-- The kinds that serve a locale, in order of preference; remembered per locale. -/
def kindsFor (r : Registry σ δ) (l : Locale) (s : Session σ) :
    List Kind × Registry σ δ × Session σ :=
  match r.kindsByLocale.find? l with
  | some kinds => (kinds, r, s.count .kindsHit)
  | none =>
    let kinds := r.serving l r.preference (s.count .kindsMiss)
    (kinds.1, { r with kindsByLocale := r.kindsByLocale.insert l kinds.1 }, kinds.2)

/-! ## Resolution -/

/-- Counts and reports an adapter that owed an object and had none. -/
def reportMissing (q : Inquiry σ δ α) (k : Kind) (a : Adapter σ δ) (s : Session σ) : Session σ :=
  match q.expected with
  | .object => (s.count .contractViolation).say (.missingObject k a.label q.locale)
  | .name => s

/-- Asks the adapters of some kinds in turn, up to the first answer. -/
def consult (r : Registry σ δ) (q : Inquiry σ δ α) :
    List Kind → Session σ → Option α × Session σ
  | [], s => (none, s)
  | k :: ks, s =>
    match r.adapter? k with
    | none => consult r q ks s
    | some a =>
      let answer := s.get q.getter a (r.addressee k a) q.locale q.key q.expected
      match answer.1 with
      | some value => (some value, answer.2)
      | none => consult r q ks (reportMissing q k a answer.2)

/-- Goes through candidates, asking the adapters that serve each one. -/
def walk (q : Inquiry σ δ α) (available : List Locale) :
    List Locale → Registry σ δ → Session σ → Option α × Registry σ δ × Session σ
  | [], r, s => (none, r, s)
  | d :: ds, r, s =>
    let s := s.count .candidateExamined
    if d = .root ∨ d ∈ available then
      let kinds := r.kindsFor d s
      let answer := kinds.2.1.consult q kinds.1 kinds.2.2
      match answer.1 with
      | some value => (some value, kinds.2.1, answer.2)
      | none => walk q available ds kinds.2.1 answer.2
    else walk q available ds r s

/-- The built-in adapter alone. -/
def resolveBuiltin (r : Registry σ δ) (q : Inquiry σ δ α) (s : Session σ) :
    Resolution α × Registry σ δ × Session σ :=
  let answer := r.consult q [.builtin] (s.count .fastPath)
  match answer.1 with
  | some value => (.found value, r, answer.2)
  | none => (.notFound, r, answer.2.count .notFound)

/-- The adapters that serve a candidate, candidate by candidate. -/
def resolveCandidates (r : Registry σ δ) (q : Inquiry σ δ α) (s : Session σ) :
    Resolution α × Registry σ δ × Session σ :=
  let chain := q.locale.candidates
  let available := r.availableLocales (s.count .fallbackChain)
  let answer := walk q available.1 chain available.2.1 available.2.2
  match answer.1 with
  | some value => (.found value, answer.2)
  | none =>
    (.notFound, answer.2.1,
      (answer.2.2.say (.nothingFound r.category q.locale chain.length)).count .notFound)

/-- The first answer of an adapter to an inquiry. -/
def resolve (r : Registry σ δ) (q : Inquiry σ δ α) (s : Session σ) :
    Resolution α × Registry σ δ × Session σ :=
  if r.hasExternal then r.resolveCandidates q s else r.resolveBuiltin q s

/-- Whether the adapter of a kind serves a locale, if there is one; not remembered. -/
def supports (r : Registry σ δ) (k : Kind) (l : Locale) (s : Session σ) :
    Option Bool × Registry σ δ × Session σ :=
  match r.adapter? k with
  | none => (none, r, s)
  | some a =>
    let answer := s.test a (r.addressee k a) l
    (some answer.1, r, answer.2)

end Registry

end LocaleServices

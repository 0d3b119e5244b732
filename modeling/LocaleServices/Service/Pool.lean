import LocaleServices.Adapter.Preference
import LocaleServices.Service.Registry

/-!
  Pools: one registry per category, made when it is first needed.

  `registry` hands out the registry of a category. A source that is being asked for adapters
  may itself ask the pool for that registry; the one that is finished first is kept and every
  other is discarded. Registries are numbered as their making starts, so the serial number
  tells them apart. All other operations work on the registry of their category, and
  `allAvailableLocales` is computed once over every category.
-/

namespace LocaleServices

/-- A pool over a source. `callbacks` are still due from the source, and `started` registries
    have been begun. -/
structure Pool {σ δ : Type} (src : Source σ δ) where
  registries : Table Category (Registry σ δ)
  allAvailable : Option (List Locale)
  callbacks : Nat
  started : Nat
  session : Session σ

namespace Pool

variable {σ δ α β : Type} {src : Source σ δ}

/-- A pool that has done nothing yet. -/
def fresh (src : Source σ δ) (world : σ) : Pool src :=
  ⟨.empty, none, src.callbacks, 0, .start world⟩

def say (p : Pool src) (m : Message) : Pool src := { p with session := p.session.say m }

/-! ## Making registries -/

/-- Asks the source for its preference. -/
def askPreference (p : Pool src) : List Kind × Pool src :=
  let answer := src.preference p.session.world
  (answer.1, { p with session := p.session.after .preference answer.2 })

/-- Lets the source call back, if it still does. -/
def callBack (again : Category → Pool src → Pool src) (c : Category) (p : Pool src) : Pool src :=
  if p.callbacks = 0 then p else again c { p with callbacks := p.callbacks - 1 }

/-- Asks the source for an adapter; `again` is what a callback does. -/
def askAdapter (again : Category → Pool src → Pool src) (k : Kind) (c : Category)
    (p : Pool src) : Option (Adapter σ δ) × Pool src :=
  let p := { p with session := p.session.after (.adapterFor k c) p.session.world }
  let p := p.callBack again c
  let answer := src.adapterFor k c p.session.world
  (answer.1, { p with session := { p.session with world := answer.2 } })

/-- Asks the source for the adapters of some kinds in turn. -/
def askAdapters (again : Category → Pool src → Pool src) (c : Category) :
    List Kind → Table Kind (Adapter σ δ) → Pool src → Table Kind (Adapter σ δ) × Pool src
  | [], found, p => (found, p)
  | k :: ks, found, p =>
    let answer := p.askAdapter again k c
    match answer.1 with
    | none => askAdapters again c ks found answer.2
    | some a => askAdapters again c ks (found.insert k a) answer.2

/-- The kinds a source is asked for, given its completed preference. -/
def askedKinds (preference : List Kind) : List Kind := Kind.all.filter (· ∈ preference)

/-- Makes a registry without keeping it. -/
def make (again : Category → Pool src → Pool src) (c : Category) (p : Pool src) :
    Registry σ δ × Pool src :=
  let serial := p.started
  let named := { p with started := p.started + 1 }.askPreference
  let preference := Preference.complete named.1
  let answer := named.2.askAdapters again c (askedKinds preference) .empty
  let p := if answer.1.contains .builtin then answer.2 else answer.2.say (.noBuiltin c)
  (⟨serial, c, preference, answer.1, .empty, none⟩, p.say (.registryCreated c answer.1.size))

/-- Keeps a new registry, unless its category has one by now. -/
def keep (c : Category) (r : Registry σ δ) (p : Pool src) : Registry σ δ × Pool src :=
  match p.registries.find? c with
  | some kept => (kept, p.say (.registryDiscarded c))
  | none => (r, { p with registries := p.registries.insert c r })

/-- The registry of a category; `n` bounds how deep callbacks can nest. -/
def registryWithin : Nat → Category → Pool src → Registry σ δ × Pool src
  | n, c, p =>
    match p.registries.find? c with
    | some r => (r, p)
    | none =>
      let made :=
        match n with
        | 0 => p.make (fun _ p => p) c
        | n + 1 => p.make (fun c p => (registryWithin n c p).2) c
      made.2.keep c made.1

/-- The registry of a category, made on the first call. -/
def registry (c : Category) (p : Pool src) : Registry σ δ × Pool src :=
  registryWithin p.callbacks c p

/-! ## Operations -/

/-- Works on the registry of a category and keeps what it has found out. -/
def onRegistry (c : Category)
    (work : Registry σ δ → Session σ → β × Registry σ δ × Session σ) (p : Pool src) :
    β × Pool src :=
  let r := p.registry c
  let done := work r.1 r.2.session
  (done.1, { r.2 with registries := r.2.registries.insert c done.2.1, session := done.2.2 })

/-- The locales that some adapter of a category has data for, in ascending order. -/
def availableLocales (c : Category) (p : Pool src) : List Locale × Pool src :=
  p.onRegistry c Registry.availableLocales

/-- The available locales of some categories, one after the other. -/
def gatherAvailable : List Category → Pool src → List Locale × Pool src
  | [], p => ([], p)
  | c :: cs, p =>
    let here := p.availableLocales c
    let more := gatherAvailable cs here.2
    (here.1 ++ more.1, more.2)

/-- The available locales of all categories together, in ascending order; computed once. -/
def allAvailableLocales (p : Pool src) : List Locale × Pool src :=
  match p.allAvailable with
  | some locales => (locales, p)
  | none =>
    let gathered := p.gatherAvailable Category.all
    let locales := Ascending.ofList gathered.1
    (locales, { gathered.2 with allAvailable := some locales }.say
      (.allAvailableComputed locales.length))

/-- The kinds that serve a locale in a category. -/
def kindsFor (c : Category) (l : Locale) (p : Pool src) : List Kind × Pool src :=
  p.onRegistry c fun r s => r.kindsFor l s

/-- Whether the adapter of a kind serves a locale, if the category has one. -/
def supports (c : Category) (k : Kind) (l : Locale) (p : Pool src) : Option Bool × Pool src :=
  p.onRegistry c fun r s => r.supports k l s

/-- The first answer of an adapter that is eligible for the requested locale. -/
def resolve (c : Category) (locale : Option Locale) (key : Option String)
    (expected : Expectation) (getter : Getter σ δ α) (p : Pool src) :
    Except RequestError (Resolution α) × Pool src :=
  match locale with
  | none => (.error .localeMissing, p)
  | some l =>
    let done := p.onRegistry c fun r s => r.resolve ⟨l, key, expected, getter⟩ s
    (.ok done.1, done.2)

/-- A localized object, which every eligible adapter owes. -/
def localizedObject (c : Category) (l : Locale) (getter : Getter σ δ α) (p : Pool src) :
    Except RequestError (Resolution α) × Pool src :=
  p.resolve c (some l) none .object getter

/-- A localized name, which adapters may lack. -/
def localizedName (c : Category) (l : Locale) (key : String) (getter : Getter σ δ α)
    (p : Pool src) : Except RequestError (Resolution α) × Pool src :=
  p.resolve c (some l) (some key) .name getter

def counters (p : Pool src) : Counters := p.session.counters

/-- The pool with an empty record of messages and calls. -/
def quieted (p : Pool src) : Pool src :=
  { p with session := { p.session with messages := [], calls := [] } }

end Pool

end LocaleServices

import LocaleServices.Service.Pool

/-!
  Requests to a pool as data, and runs of them.

  `perform` carries out one request and `run` a list of them in order, so that what holds
  after any use of a pool can be said of `run`.
-/

namespace LocaleServices

inductive Request (σ δ α : Type)
  | resolve (category : Category) (locale : Option Locale) (key : Option String)
      (expected : Expectation) (getter : Getter σ δ α)
  | localizedObject (category : Category) (locale : Locale) (getter : Getter σ δ α)
  | localizedName (category : Category) (locale : Locale) (key : String) (getter : Getter σ δ α)
  | available (category : Category)
  | allAvailable
  | registry (category : Category)
  | kinds (category : Category) (locale : Locale)
  | supports (category : Category) (kind : Kind) (locale : Locale)

inductive Reply (σ δ α : Type)
  | resolution (outcome : Except RequestError (Resolution α))
  | locales (ls : List Locale)
  | registry (r : Registry σ δ)
  | kinds (ks : List Kind)
  | support (answer : Option Bool)

namespace Pool

variable {σ δ α : Type} {src : Source σ δ}

def perform (p : Pool src) : Request σ δ α → Reply σ δ α × Pool src
  | .resolve c l key expected getter =>
    let done := p.resolve c l key expected getter
    (.resolution done.1, done.2)
  | .localizedObject c l getter =>
    let done := p.localizedObject c l getter
    (.resolution done.1, done.2)
  | .localizedName c l key getter =>
    let done := p.localizedName c l key getter
    (.resolution done.1, done.2)
  | .available c =>
    let done := p.availableLocales c
    (.locales done.1, done.2)
  | .allAvailable =>
    let done := p.allAvailableLocales
    (.locales done.1, done.2)
  | .registry c =>
    let done := p.registry c
    (.registry done.1, done.2)
  | .kinds c l =>
    let done := p.kindsFor c l
    (.kinds done.1, done.2)
  | .supports c k l =>
    let done := p.supports c k l
    (.support done.1, done.2)

/-- Carries out requests in order. -/
def run (p : Pool src) : List (Request σ δ α) → List (Reply σ δ α) × Pool src
  | [] => ([], p)
  | q :: qs =>
    let done := p.perform q
    let more := run done.2 qs
    (done.1 :: more.1, more.2)

end Pool

end LocaleServices

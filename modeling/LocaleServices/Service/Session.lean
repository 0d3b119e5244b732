import LocaleServices.Adapter.Basic
import LocaleServices.Service.Counters
import LocaleServices.Service.Message
import LocaleServices.Service.Resolution

/-!
  What a run of the services changes: the world, the counters, the messages and the calls.

  Every call to a source or an adapter goes through here, so that `calls` holds them all in
  order. A derived support test is recorded as the listing it needs, and needs none for the
  root.
-/

namespace LocaleServices

/-- The adapter that a call goes to. -/
structure Addressee where
  category : Category
  kind : Kind
  label : String
deriving DecidableEq

/-- Why an adapter is asked for its list. -/
inductive Purpose
  | availability
  | support
deriving DecidableEq

/-- One call to the source or to an adapter, with what is needed of the answer. -/
inductive Call
  | preference
  | adapterFor (kind : Kind) (category : Category)
  | listing (whom : Addressee) (purpose : Purpose)
  | support (whom : Addressee) (locale : Locale) (answer : Bool)
  | getter (whom : Addressee) (locale : Locale) (key : Option String) (expected : Expectation)
      (answered : Bool)
deriving DecidableEq

structure Session (σ : Type) where
  world : σ
  counters : Counters
  messages : List Message
  calls : List Call

namespace Session

variable {σ δ α : Type}

def start (world : σ) : Session σ := ⟨world, .zero, [], []⟩

def count (s : Session σ) (c : Counter) : Session σ :=
  { s with counters := s.counters.add 1 c }

def say (s : Session σ) (m : Message) : Session σ :=
  { s with messages := s.messages ++ [m] }

/-- The session after a call that left the world in this state. -/
def after (s : Session σ) (call : Call) (world : σ) : Session σ :=
  { s with world := world, calls := s.calls ++ [call] }

/-! ## Calls -/

/-- Asks an adapter for its list. -/
def list (a : Adapter σ δ) (whom : Addressee) (purpose : Purpose) (s : Session σ) :
    List Locale × Session σ :=
  let answer := a.listing s.world
  (answer.1, s.after (.listing whom purpose) answer.2)

/-- Asks an adapter whether it serves a locale. -/
def test (a : Adapter σ δ) (whom : Addressee) (l : Locale) (s : Session σ) : Bool × Session σ :=
  match a.support with
  | .own own =>
    let answer := own l s.world
    (answer.1, s.after (.support whom l answer.1) answer.2)
  | .derived =>
    if l.bare = .root then (true, s)
    else
      let listed := s.list a whom .support
      (l.isCoveredBy listed.1, listed.2)

/-- Asks an adapter for a datum. -/
def get (getter : Getter σ δ α) (a : Adapter σ δ) (whom : Addressee) (l : Locale)
    (key : Option String) (expected : Expectation) (s : Session σ) : Option α × Session σ :=
  let answer := getter a l key s.world
  (answer.1, s.after (.getter whom l key expected answer.1.isSome) answer.2)

end Session

end LocaleServices

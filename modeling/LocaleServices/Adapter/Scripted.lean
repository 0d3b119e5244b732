import LocaleServices.Adapter.NameTable

/-!
  Adapters that follow a script, for trying out what relies on adapters.

  A `Role` is a name table with instructions: a fixed answer, a number of refusals before the
  first answer, a way to decide which locales are served, and a second list of locales for
  every listing after the first. The world is the list of roles, each of which keeps track of
  how often it was asked; the adapter of a role knows its place in that list.
-/

namespace LocaleServices

/-- How a role decides which locales it serves. -/
inductive Serving
  | table
  | always
  | never
  | derived
deriving DecidableEq

structure Role where
  label : String
  table : NameTable
  /-- The answer to every lookup, in place of the table's. -/
  answer : Option (Option String)
  serving : Serving
  /-- What is listed from the second time on. -/
  later : Option (List Locale)
  /-- How many lookups are still to be left without an answer. -/
  refusals : Nat
  /-- How often the role was asked for its list. -/
  listings : Nat

namespace Role

/-- What the role lists when it is asked next. -/
def listed (r : Role) : List Locale :=
  if r.listings = 0 then r.table.locales else r.later.getD r.table.locales

/-- The answer to a lookup once no refusals are left. -/
def answerTo (r : Role) (l : Locale) (key : Option String) : Option String :=
  match r.answer with
  | some fixed => fixed
  | none => r.table.lookup l key

/-- Lets the role at a place act on the world; nothing happens at a place without one. -/
def act {α : Type} (place : Nat) (idle : α) (deed : Role → α × Role) (world : List Role) :
    α × List Role :=
  match world[place]? with
  | none => (idle, world)
  | some r => ((deed r).1, world.set place (deed r).2)

def support (r : Role) : Support (List Role) :=
  match r.serving with
  | .table => .own fun l w => (r.table.supports l, w)
  | .always => .own fun _ w => (true, w)
  | .never => .own fun _ w => (false, w)
  | .derived => .derived

/-- The adapter of the role at a place. -/
def toAdapter (r : Role) (place : Nat) : Adapter (List Role) Nat where
  label := r.label
  provider := place
  listing := act place [] fun r => (r.listed, { r with listings := r.listings + 1 })
  support := r.support

/-- Looks a datum up as the script of the adapter says. -/
def getter : Getter (List Role) Nat String :=
  fun a l key => act a.provider none fun r =>
    if r.refusals = 0 then (r.answerTo l key, r)
    else (none, { r with refusals := r.refusals - 1 })

end Role

end LocaleServices

/-!
  Outcomes of a lookup.

  A resolution is a value or the fact that no adapter had one. Objects are owed by every
  adapter that is asked; names may be missing. The only error a caller can make is to leave
  out the locale.
-/

namespace LocaleServices

inductive Resolution (α : Type)
  | found (value : α)
  | notFound
deriving DecidableEq

namespace Resolution

variable {α : Type}

def ofOption : Option α → Resolution α
  | some a => found a
  | none => notFound

def toOption : Resolution α → Option α
  | found a => some a
  | notFound => none

def isFound (r : Resolution α) : Bool := r.toOption.isSome

/-- The value, or a substitute. -/
def getD (r : Resolution α) (substitute : α) : α := r.toOption.getD substitute

@[simp] theorem toOption_ofOption (o : Option α) : (ofOption o).toOption = o := by
  cases o <;> rfl

end Resolution

/-- What a caller expects from every adapter that is asked. -/
inductive Expectation
  | object
  | name
deriving DecidableEq

/-- What is wrong with a request. -/
inductive RequestError
  | localeMissing
deriving DecidableEq

def RequestError.message : RequestError → String
  | localeMissing => "invalid argument: locale must be present"

end LocaleServices

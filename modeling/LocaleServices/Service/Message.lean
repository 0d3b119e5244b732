import LocaleServices.Adapter.Kind
import LocaleServices.Category
import LocaleServices.Locale.Subtag

/-!
  What the services have to say while they work.

  Each message has a level and one line of text. Warnings are about data that were passed
  over or about adapters that break their promise; the rest tells what was built.
-/

namespace LocaleServices

inductive Level
  | debug
  | warning
deriving DecidableEq

def Level.name : Level → String
  | debug => "DEBUG"
  | warning => "WARN"

inductive Message
  | kindIgnored (kind : UnknownKind)
  | scriptLost (locale : Locale) (fault : IllFormed)
  | noBuiltin (category : Category)
  | missingObject (kind : Kind) (adapter : String) (locale : Locale)
  | registryCreated (category : Category) (adapters : Nat)
  | registryDiscarded (category : Category)
  | availableComputed (category : Category) (locales : Nat)
  | allAvailableComputed (locales : Nat)
  | nothingFound (category : Category) (locale : Locale) (candidates : Nat)
deriving DecidableEq

namespace Message

def level : Message → Level
  | kindIgnored _ | scriptLost _ _ | noBuiltin _ | missingObject _ _ _ => .warning
  | _ => .debug

def text : Message → String
  | kindIgnored e => e.message ++ ", ignored"
  | scriptLost l e =>
    "Locale " ++ l.identifier ++ " has non-empty extensions but ill-formed fields (" ++
      e.message ++ "), script will be lost"
  | noBuiltin c =>
    "No built-in adapter for " ++ c.name ++ ", lookups rely on other providers only"
  | missingObject k a l =>
    "A locale sensitive service provider returned no localized object, which should not " ++
      "happen. provider: " ++ k.name ++ " " ++ a ++ " locale: " ++ l.identifier
  | registryCreated c n =>
    "Registry for " ++ c.name ++ " created with " ++ toString n ++ " adapter(s)"
  | registryDiscarded c => "Discarding redundant registry for " ++ c.name
  | availableComputed c n =>
    "Computed " ++ toString n ++ " available locale(s) for " ++ c.name
  | allAvailableComputed n =>
    "Computed " ++ toString n ++ " available locale(s) across all categories"
  | nothingFound c l n =>
    "No " ++ c.name ++ " provider found for " ++ l.identifier ++ " after " ++ toString n ++
      " candidate(s)"

/-- Level and text on one line. -/
def line (m : Message) : String := m.level.name ++ " " ++ m.text

end Message

end LocaleServices

import LocaleServices.Demo.Names
import LocaleServices.Service.Pool

/-!
  The demonstration: language names for a requested locale, and what it took to find them.

  `run` takes the arguments (language, region, variant) and the value of the preference
  variable. It fails only when that value is no text. The value is that of the environment
  alone: a file of settings that adds variables is left out.
-/

namespace LocaleServices.Demo

structure Report where
  preference : List Kind
  requested : Locale
  category : Category
  names : List (String × Option String)
  available : List Locale
  allAvailable : List Locale
  counters : Counters

/-- The locale that the first three arguments stand for. -/
def requested (args : List String) : Locale :=
  .unscripted (args[0]?.getD "") (args[1]?.getD "") (args[2]?.getD "")

/-- The name for each key, with the pool after the last lookup. -/
def lookupAll {src : Source Unit (Option NameTable)} (c : Category) (l : Locale) :
    List String → Pool src → List (String × Option String) × Pool src
  | [], p => ([], p)
  | key :: keys, p =>
    let done := p.localizedName c l key NameTable.getter
    let name := done.1.toOption.bind Resolution.toOption
    let more := lookupAll c l keys done.2
    ((key, name) :: more.1, more.2)

def report (preference : List Kind) (requested : Locale) : Report :=
  let pool := Pool.fresh ((catalog preference).toSource 0) ()
  let names := lookupAll .localeName requested keys pool
  let available := names.2.availableLocales .localeName
  let allAvailable := available.2.allAvailableLocales
  { preference := preference
    requested := requested
    category := .localeName
    names := names.1
    available := available.1
    allAvailable := allAvailable.1
    counters := allAvailable.2.counters }

def run (args : List String) (value : Option ByteArray) :
    Except Preference.VariableError Report :=
  (Preference.ofVariable value).map fun preference => report preference (requested args)

/-- The first line that is written about a failure; the cause that may follow it, the
    malformed value, is left out. -/
def failureLine (e : Preference.VariableError) : String := "Error: " ++ e.message

end LocaleServices.Demo

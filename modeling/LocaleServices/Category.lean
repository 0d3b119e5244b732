/-!
  The locale-sensitive services that adapters can serve.

  The set is closed; `all` lists it in the order in which the available locales of every
  category are gathered. A category is found again by its name (`ofName?_name`).
-/

namespace LocaleServices

inductive Category
  | breakIterator
  | collator
  | dateFormat
  | dateFormatSymbols
  | decimalFormatSymbols
  | numberFormat
  | currencyName
  | localeName
  | timeZoneName
  | calendarData
deriving DecidableEq

namespace Category

def all : List Category :=
  [.breakIterator, .collator, .dateFormat, .dateFormatSymbols, .decimalFormatSymbols,
   .numberFormat, .currencyName, .localeName, .timeZoneName, .calendarData]

def name : Category → String
  | breakIterator => "break-iterator"
  | collator => "collator"
  | dateFormat => "date-format"
  | dateFormatSymbols => "date-format-symbols"
  | decimalFormatSymbols => "decimal-format-symbols"
  | numberFormat => "number-format"
  | currencyName => "currency-name"
  | localeName => "locale-name"
  | timeZoneName => "time-zone-name"
  | calendarData => "calendar-data"

/-- The category with this name. -/
def ofName? (s : String) : Option Category :=
  all.find? fun c => c.name = s

theorem mem_all (c : Category) : c ∈ all := by
  cases c <;> decide

theorem ofName?_name (c : Category) : ofName? c.name = some c := by
  cases c <;> decide

end Category

end LocaleServices

import LocaleServices.Adapter.Catalog
import LocaleServices.Adapter.NameTable

/-!
  Demonstration data: names of three languages in three languages.

  The built-in table serves every category; a plugin adds Canadian French names of two of
  the languages.
-/

namespace LocaleServices.Demo

/-- The languages that are named, in the order in which they are looked up. -/
def keys : List String := ["en", "fr", "de"]

def french : Locale := .ofLanguage "fr"

def german : Locale := .ofLanguage "de"

def canadianFrench : Locale := .unscripted "fr" "CA" ""

def builtinNames : NameTable :=
  NameTable.empty
    |>.enter .root "en" "English"
    |>.enter .root "fr" "French"
    |>.enter .root "de" "German"
    |>.enter french "en" "anglais"
    |>.enter french "fr" "français"
    |>.enter french "de" "allemand"
    |>.enter german "en" "Englisch"
    |>.enter german "fr" "Französisch"
    |>.enter german "de" "Deutsch"

def pluginNames : NameTable :=
  NameTable.empty
    |>.enter canadianFrench "en" "anglais (Canada)"
    |>.enter canadianFrench "fr" "français (Canada)"

/-- The two tables under an order of preference. -/
def catalog (preference : List Kind) : Catalog Unit (Option NameTable) :=
  (Catalog.empty preference)
    |>.registerAll .builtin (builtinNames.toAdapter "builtin names")
    |>.register .plugin .localeName (pluginNames.toAdapter "plugin names")

end LocaleServices.Demo

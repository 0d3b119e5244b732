import LocaleServices.Locale.Extensions

/-!
  The three legacy combinations of language, region and variant.

  `ja_JP_JP` and `th_TH_TH` stand for a calendar and for digits, and carry the `marker`
  extension that says so; `no_NO_NY` is an old spelling of Nynorsk. The modern spelling of
  each has the `modernLanguage` and no variant.
-/

namespace LocaleServices

inductive Legacy
  | japanese
  | thai
  | nynorsk
deriving DecidableEq

namespace Legacy

def all : List Legacy := [japanese, thai, nynorsk]

def language : Legacy → String
  | japanese => "ja"
  | thai => "th"
  | nynorsk => "no"

def region : Legacy → String
  | japanese => "JP"
  | thai => "TH"
  | nynorsk => "NO"

def variant : Legacy → String
  | japanese => "JP"
  | thai => "TH"
  | nynorsk => "NY"

/-- The language under which the same meaning is written today. -/
def modernLanguage : Legacy → String
  | nynorsk => "nn"
  | form => form.language

/-- The singleton of the Unicode extension. -/
def unicodeKey : Char := 'u'

/-- The extensions that belong to the form when it has no script. -/
def marker : Legacy → Extensions
  | japanese => .single unicodeKey "ca-japanese"
  | thai => .single unicodeKey "nu-thai"
  | nynorsk => .empty

/-- The legacy form with these three fields. -/
def ofFields? (language region variant : String) : Option Legacy :=
  all.find? fun form =>
    form.language = language ∧ form.region = region ∧ form.variant = variant

theorem ofFields?_eq_some_iff {l r v : String} {form : Legacy} :
    ofFields? l r v = some form ↔ form.language = l ∧ form.region = r ∧ form.variant = v := by
  constructor
  · intro h
    simpa using List.find?_some h
  · rintro ⟨rfl, rfl, rfl⟩
    cases form <;> decide

end Legacy

end LocaleServices

import LocaleServices.Locale.Basic

/-!
  The identifier text of a locale, as in `zh_TW_#Hant` or `ja_JP_JP_#u-ca-japanese`.

  The fields are joined by underscores, script and extensions behind a number sign. A locale
  without language and region shows nothing, and the place of an empty region is kept when
  something follows the language.
-/

namespace LocaleServices.Locale

/-- The region with its underscore, or the underscore alone when more follows the language. -/
def regionPart (l : Locale) : String :=
  if l.region ≠ "" ∨ (l.language ≠ "" ∧ (l.variant ≠ "" ∨ l.script ≠ "" ∨ l.hasExtensions)) then
    "_" ++ l.region
  else ""

/-- What follows the region, each part with its underscore. -/
def finalParts (l : Locale) : String :=
  (if l.variant ≠ "" then "_" ++ l.variant else "") ++
    (if l.script ≠ "" then "_#" ++ l.script else "") ++
    (if l.hasExtensions then
      (if l.script = "" then "_#" else "_") ++ l.extensions.text
    else "")

/-- The identifier text. -/
def identifier (l : Locale) : String :=
  l.language ++ l.regionPart ++
    if l.language ≠ "" ∨ l.region ≠ "" then l.finalParts else ""

instance : ToString Locale := ⟨identifier⟩

end LocaleServices.Locale

import LocaleServices.Locale.Legacy

/-!
  Locales: language, script, region, variant and extensions.

  `ofFields` puts the fields in their usual case (small language, titled script, capital
  region, the variant as given) and attaches the marker of a legacy form without a script.
  `withExtension` edits one extension, `bare` drops them all, and neither touches the four
  base fields. `root` is the locale in which everything is empty.
-/

namespace LocaleServices

structure Locale where
  language : String
  script : String
  region : String
  variant : String
  extensions : Extensions
deriving DecidableEq

namespace Locale

/-! ## Construction -/

/-- The extensions that a locale has from its base fields alone. -/
def markerOf (language script region variant : String) : Extensions :=
  if script = "" then
    match Legacy.ofFields? language region variant with
    | some form => form.marker
    | none => .empty
  else .empty

/-- The locale with these base fields, in their usual case. -/
def ofFields (language script region variant : String) : Locale :=
  let language := Text.lower language
  let script := Text.titled script
  let region := Text.upper region
  ⟨language, script, region, variant, markerOf language script region variant⟩

/-- A locale without a script. -/
def unscripted (language region variant : String) : Locale :=
  ofFields language "" region variant

def ofLanguage (language : String) : Locale :=
  unscripted language "" ""

def root : Locale := ⟨"", "", "", "", .empty⟩

/-- Japanese with the imperial calendar. -/
def japaneseCalendar : Locale := unscripted "ja" "JP" "JP"

/-- Thai with Thai digits. -/
def thaiDigits : Locale := unscripted "th" "TH" "TH"

/-! ## Extensions -/

def hasExtensions (l : Locale) : Bool := !l.extensions.isEmpty

/-- The value of an extension; the case of the key does not matter. -/
def extension? (l : Locale) (key : Char) : Option String :=
  l.extensions.find? key.toLower

/-- Sets an extension, in small letters, or removes it when the value is empty. -/
def withExtension (l : Locale) (key : Char) (value : String) : Locale :=
  if value = "" then { l with extensions := l.extensions.erase key.toLower }
  else { l with extensions := l.extensions.insert key.toLower (Text.lower value) }

/-- The base fields alone. -/
def bare (l : Locale) : Locale := { l with extensions := .empty }

/-- Whether the locale is a legacy form with its marker and nothing more. -/
def isIrregular (l : Locale) : Bool :=
  l.hasExtensions && l.script = "" &&
    l.extensions = markerOf l.language l.script l.region l.variant

/-- The legacy form whose language, region and variant the locale has. -/
def legacy? (l : Locale) : Option Legacy :=
  Legacy.ofFields? l.language l.region l.variant

/-! ## Laws -/

@[simp] theorem bare_bare (l : Locale) : l.bare.bare = l.bare := rfl

theorem bare_eq_iff {a b : Locale} :
    a.bare = b.bare ↔ a.language = b.language ∧ a.script = b.script ∧ a.region = b.region ∧
      a.variant = b.variant := by
  cases a
  cases b
  simp [bare]

theorem bare_withExtension (l : Locale) (key : Char) (value : String) :
    (l.withExtension key value).bare = l.bare := by
  unfold withExtension
  split <;> rfl

/-- An edit changes the answer for the small letter of its key, and for no other. -/
theorem find?_withExtension (l : Locale) (key k : Char) (value : String) :
    (l.withExtension key value).extensions.find? k =
      if key.toLower = k then (if value = "" then none else some (Text.lower value))
      else l.extensions.find? k := by
  unfold withExtension
  split
  · exact Extensions.find?_erase _ _ _
  · exact Extensions.find?_insert _ _ _ _

/-- Fields that are in their usual case already are kept. -/
theorem ofFields_ofFields (language script region variant : String) :
    ofFields (ofFields language script region variant).language
        (ofFields language script region variant).script
        (ofFields language script region variant).region
        (ofFields language script region variant).variant =
      ofFields language script region variant := by
  simp only [ofFields, Text.lower_lower, Text.titled_titled, Text.upper_upper]

end Locale

end LocaleServices

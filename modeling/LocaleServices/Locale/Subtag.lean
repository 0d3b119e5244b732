import LocaleServices.Locale.Identifier
import LocaleServices.Text.Pieces
import LocaleServices.Text.Quoted

/-!
  The grammar of the base fields.

  An empty field is always well-formed. A language has two to eight letters, a script four
  letters, a region two letters or three digits; a variant is made of pieces cut at `_` and
  `-`, each of five to eight letters and digits or of one digit and three letters or digits.
  `fault?` is the first field that is not so. `modernized` is the bare locale with a legacy
  form in its modern spelling, and `cleared` is that locale if it has no fault.
-/

namespace LocaleServices

/-! ## Subtags -/

namespace Subtag

def isLanguage (s : List Char) : Bool :=
  s.all Char.isAlpha && 2 ≤ s.length && s.length ≤ 8

def isScript (s : List Char) : Bool :=
  s.all Char.isAlpha && s.length = 4

def isRegion (s : List Char) : Bool :=
  (s.all Char.isAlpha && s.length = 2) || (s.all Char.isDigit && s.length = 3)

/-- One piece of a variant. -/
def isVariantPiece (s : List Char) : Bool :=
  (s.all Char.isAlphanum && 5 ≤ s.length && s.length ≤ 8) ||
    (s.all Char.isAlphanum && s.length = 4 && (s.take 1).all Char.isDigit)

def isVariant (s : List Char) : Bool :=
  (Text.pieceChars (fun c => c = '_' || c = '-') s).all isVariantPiece

end Subtag

/-- The base fields, in the order in which they are checked. -/
inductive Field
  | language
  | script
  | region
  | variant
deriving DecidableEq

namespace Field

def all : List Field := [language, script, region, variant]

def name : Field → String
  | language => "language"
  | script => "script"
  | region => "region"
  | variant => "variant"

/-- The grammar of the field. -/
def accepts : Field → List Char → Bool
  | language => Subtag.isLanguage
  | script => Subtag.isScript
  | region => Subtag.isRegion
  | variant => Subtag.isVariant

/-- The field of a locale. -/
def of : Field → Locale → String
  | language => Locale.language
  | script => Locale.script
  | region => Locale.region
  | variant => Locale.variant

end Field

/-- A field whose value the grammar does not admit. -/
structure IllFormed where
  field : Field
  value : String
deriving DecidableEq

namespace IllFormed

def message (e : IllFormed) : String :=
  "ill-formed " ++ e.field.name ++ " subtag: " ++ Text.quoted e.value

end IllFormed

/-! ## Checks on locales -/

namespace Locale

/-- Whether a field is empty or follows its grammar. -/
def admits (l : Locale) (f : Field) : Bool :=
  f.of l = "" || f.accepts (f.of l).toList

/-- The first field that is not well-formed. -/
def fault? (l : Locale) : Option IllFormed :=
  (Field.all.find? fun f => !l.admits f).map fun f => ⟨f, f.of l⟩

def validate (l : Locale) : Except IllFormed Unit :=
  match l.fault? with
  | some e => .error e
  | none => .ok ()

/-- The base fields, with a legacy form in its modern spelling. -/
def modernized (l : Locale) : Locale :=
  match l.legacy? with
  | some form => { l.bare with language := form.modernLanguage, variant := "" }
  | none => l.bare

/-- The modernized locale, if it is well-formed. -/
def cleared (l : Locale) : Except IllFormed Locale :=
  match l.modernized.fault? with
  | some e => .error e
  | none => .ok l.modernized

theorem fault?_eq_none_iff {l : Locale} : l.fault? = none ↔ ∀ f, l.admits f = true := by
  simp only [fault?, Option.map_eq_none_iff, List.find?_eq_none, Field.all]
  constructor
  · intro h f
    have := h f (by cases f <;> simp)
    simpa using this
  · intro h f _
    simp [h f]

theorem validate_eq_ok_iff {l : Locale} : l.validate = .ok () ↔ l.fault? = none := by
  unfold validate
  cases l.fault? <;> simp

/-- Clearing sees the base fields only. -/
theorem cleared_congr {a b : Locale} (h : a.bare = b.bare) : a.cleared = b.cleared := by
  obtain ⟨hl, _, hr, hv⟩ := bare_eq_iff.mp h
  have hm : a.modernized = b.modernized := by
    simp only [modernized, legacy?, hl, hr, hv, h]
  simp only [cleared, hm]

end Locale

end LocaleServices

import Mathlib
import LocaleServices.Proofs.Locale.Normal
import LocaleServices.Proofs.Text.Cuts

/-!
  What the checks on the base fields accept.

  `Field.Grammar` says which texts a field admits, in terms of ranges of characters, of
  lengths and of the cut of a variant; the checks decide it (`accepts_iff`, `admits_iff`). The
  fault of a locale is then its first field that is neither empty nor in the grammar
  (`fault?_eq_some_iff`). No legacy form has a well-formed variant, so a cleared locale is in
  no need of a second respelling (`cleared_of_cleared`). Main statement: `cleared_iff_grammar`.
-/

namespace LocaleServices

/-! ## The grammar -/

namespace Subtag

/-- The letters A to Z, small or capital. -/
def IsLetter (c : Char) : Prop := 'a' ≤ c ∧ c ≤ 'z' ∨ 'A' ≤ c ∧ c ≤ 'Z'

def IsDigit (c : Char) : Prop := '0' ≤ c ∧ c ≤ '9'

instance (c : Char) : Decidable (IsLetter c) := inferInstanceAs (Decidable (_ ∨ _))

instance (c : Char) : Decidable (IsDigit c) := inferInstanceAs (Decidable (_ ∧ _))

/-- Five to eight letters and digits, or a digit and three letters or digits. -/
def IsPiece (p : List Char) : Prop :=
  ((∀ c ∈ p, IsLetter c ∨ IsDigit c) ∧ 5 ≤ p.length ∧ p.length ≤ 8) ∨
    ∃ d r, p = d :: r ∧ IsDigit d ∧ (∀ c ∈ r, IsLetter c ∨ IsDigit c) ∧ r.length = 3

/-- The characters between the pieces of a variant. -/
def isSeparator (c : Char) : Bool := c = '_' || c = '-'

theorem isAlpha_iff (c : Char) : c.isAlpha = true ↔ IsLetter c := by
  simp [IsLetter, Char.isAlpha, Char.isUpper, Char.isLower, Char.le_def, or_comm]

theorem isDigit_iff (c : Char) : c.isDigit = true ↔ IsDigit c := by
  simp [IsDigit, Char.isDigit, Char.le_def]

theorem isAlphanum_iff (c : Char) : c.isAlphanum = true ↔ IsLetter c ∨ IsDigit c := by
  rw [Char.isAlphanum, Bool.or_eq_true, isAlpha_iff, isDigit_iff]

theorem isVariantPiece_iff (p : List Char) : isVariantPiece p = true ↔ IsPiece p := by
  have hshort : (∀ c ∈ p, IsLetter c ∨ IsDigit c) ∧ p.length = 4 ∧
      (∀ c ∈ p.take 1, IsDigit c) ↔
      ∃ d r, p = d :: r ∧ IsDigit d ∧ (∀ c ∈ r, IsLetter c ∨ IsDigit c) ∧ r.length = 3 := by
    cases p with
    | nil => simp
    | cons d r =>
      simp only [List.forall_mem_cons, List.length_cons, List.take_succ_cons, List.take_zero,
        List.not_mem_nil, List.cons.injEq]
      constructor
      · rintro ⟨⟨_, hr⟩, hlength, hd, -⟩
        exact ⟨d, r, ⟨rfl, rfl⟩, hd, hr, by omega⟩
      · rintro ⟨_, _, ⟨rfl, rfl⟩, hd, hr, hlength⟩
        exact ⟨⟨Or.inr hd, hr⟩, by omega, hd, by simp⟩
  rw [IsPiece, ← hshort]
  simp only [isVariantPiece, Bool.or_eq_true, Bool.and_eq_true, List.all_eq_true,
    decide_eq_true_eq, isAlphanum_iff, isDigit_iff, and_assoc]

end Subtag

namespace Field

/-- The texts that a field admits when it is given. -/
def Grammar : Field → List Char → Prop
  | language, s => (∀ c ∈ s, Subtag.IsLetter c) ∧ 2 ≤ s.length ∧ s.length ≤ 8
  | script, s => (∀ c ∈ s, Subtag.IsLetter c) ∧ s.length = 4
  | region, s => ((∀ c ∈ s, Subtag.IsLetter c) ∧ s.length = 2) ∨
      ((∀ c ∈ s, Subtag.IsDigit c) ∧ s.length = 3)
  | variant, s => ∃ ps, Text.IsCut Subtag.isSeparator s ps ∧ ∀ p ∈ ps, Subtag.IsPiece p

/-- Empty, or in the grammar. -/
def WellFormed (f : Field) (s : String) : Prop := s = "" ∨ f.Grammar s.toList

theorem accepts_iff (f : Field) (s : List Char) : f.accepts s = true ↔ f.Grammar s := by
  cases f with
  | language =>
    simp only [accepts, Subtag.isLanguage, Grammar, Bool.and_eq_true, List.all_eq_true,
      decide_eq_true_eq, Subtag.isAlpha_iff, and_assoc]
  | script =>
    simp only [accepts, Subtag.isScript, Grammar, Bool.and_eq_true, List.all_eq_true,
      decide_eq_true_eq, Subtag.isAlpha_iff]
  | region =>
    simp only [accepts, Subtag.isRegion, Grammar, Bool.or_eq_true, Bool.and_eq_true,
      List.all_eq_true, decide_eq_true_eq, Subtag.isAlpha_iff, Subtag.isDigit_iff]
  | variant =>
    simp only [accepts, Subtag.isVariant, Grammar, List.all_eq_true, Subtag.isVariantPiece_iff,
      Text.isCut_iff, exists_eq_left]
    rfl

theorem wellFormed_iff {f : Field} {s : String} :
    f.WellFormed s ↔ s = "" ∨ f.accepts s.toList = true := by
  rw [WellFormed, accepts_iff]

instance (f : Field) (s : String) : Decidable (f.WellFormed s) :=
  decidable_of_iff _ wellFormed_iff.symm

end Field

namespace Locale

variable {l : Locale}

/-! ## Faults -/

theorem admits_iff {f : Field} : l.admits f = true ↔ f.WellFormed (f.of l) := by
  rw [admits, Bool.or_eq_true, decide_eq_true_eq, Field.wellFormed_iff]

theorem validate_eq_ok_iff_wellFormed :
    l.validate = .ok () ↔ ∀ f : Field, f.WellFormed (f.of l) := by
  rw [validate_eq_ok_iff, fault?_eq_none_iff]
  simp only [admits_iff]

/-- Whether a field is the first one that is not well-formed, and the text is all of it. -/
structure IsFirstFault (l : Locale) (e : IllFormed) : Prop where
  value_eq : e.value = e.field.of l
  not_wellFormed : ¬ e.field.WellFormed e.value
  /-- The fields are checked in order. -/
  first : ∃ before after, Field.all = before ++ e.field :: after ∧
    ∀ f ∈ before, f.WellFormed (f.of l)

theorem fault?_eq_some_iff {e : IllFormed} : l.fault? = some e ↔ l.IsFirstFault e := by
  have hfind : ∀ f, (Field.all.find? fun f => !l.admits f) = some f ↔
      ¬ f.WellFormed (f.of l) ∧ ∃ before after, Field.all = before ++ f :: after ∧
        ∀ g ∈ before, g.WellFormed (g.of l) := by
    intro f
    rw [List.find?_eq_some_iff_append]
    simp only [Bool.not_eq_true', Bool.not_not, ← Bool.not_eq_true, admits_iff]
  rw [fault?, Option.map_eq_some_iff]
  constructor
  · rintro ⟨f, hf, rfl⟩
    obtain ⟨hnot, hfirst⟩ := (hfind f).mp hf
    exact ⟨rfl, hnot, hfirst⟩
  · rintro ⟨hvalue, hnot, hfirst⟩
    refine ⟨e.field, (hfind e.field).mpr ⟨hvalue ▸ hnot, hfirst⟩, ?_⟩
    rw [← hvalue]

/-! ## Legacy forms -/

theorem not_wellFormed_variant (form : Legacy) : ¬ Field.variant.WellFormed form.variant := by
  cases form <;> decide

/-- A legacy form has an ill-formed variant. -/
theorem legacy?_eq_none_of_wellFormed (h : Field.variant.WellFormed l.variant) :
    l.legacy? = none := by
  rw [Option.eq_none_iff_forall_ne_some]
  intro form hf
  rw [← (legacy?_eq_some_iff.mp hf).2.2] at h
  exact not_wellFormed_variant form h

/-- The base fields with a legacy form in its modern spelling: two of the forms lose their
    variant, and the old spelling of Nynorsk has another language as well. -/
def modernSpelling (l : Locale) : Locale :=
  if l.language = "ja" ∧ l.region = "JP" ∧ l.variant = "JP" ∨
      l.language = "th" ∧ l.region = "TH" ∧ l.variant = "TH" then
    { l.bare with variant := "" }
  else if l.language = "no" ∧ l.region = "NO" ∧ l.variant = "NY" then
    { l.bare with language := "nn", variant := "" }
  else l.bare

theorem modernized_eq_modernSpelling (l : Locale) : l.modernized = l.modernSpelling := by
  cases hf : l.legacy? with
  | none =>
    have hform : ∀ form : Legacy, ¬ (l.language = form.language ∧ l.region = form.region ∧
        l.variant = form.variant) := by
      rintro form ⟨hl, hr, hv⟩
      rw [legacy?_eq_some_iff.mpr ⟨hl.symm, hr.symm, hv.symm⟩] at hf
      cases hf
    rw [modernized_of_legacy?_eq_none hf]
    exact ((if_neg (not_or.mpr ⟨hform .japanese, hform .thai⟩)).trans
      (if_neg (hform .nynorsk))).symm
  | some form =>
    obtain ⟨hl, hr, hv⟩ := legacy?_eq_some_iff.mp hf
    rw [modernized_of_legacy? hf, modernSpelling, ← hr, ← hv, ← hl]
    cases form with
    | japanese | thai =>
      rw [if_pos (by decide)]
      exact congrArg (fun language => { l.bare with language := language, variant := "" }) hl
    | nynorsk => rw [if_neg (by decide), if_pos (by decide)]; rfl

/-! ## Clearing -/

/-- A cleared locale is its own cleared form. -/
theorem cleared_of_cleared {m : Locale} (h : l.cleared = .ok m) : m.cleared = .ok m := by
  obtain ⟨hfault, rfl⟩ := cleared_eq_ok_iff.mp h
  have hlegacy : l.modernized.legacy? = none :=
    legacy?_eq_none_of_wellFormed (admits_iff.mp (fault?_eq_none_iff.mp hfault .variant))
  have hself : l.modernized.modernized = l.modernized := by
    rw [modernized_of_legacy?_eq_none hlegacy, bare,
      ← hasExtensions_eq_false_iff.mp l.hasExtensions_modernized]
  rw [cleared_eq_ok_iff, hself]
  exact ⟨hfault, rfl⟩

/-- Extensions are cleared exactly if each field, a legacy form in its modern spelling, is
    empty or in the grammar. What is left is then these fields, with nothing more to check,
    to clear or to look up; else the first field that is not so is reported with all its
    text. Extensions do not matter for either. -/
theorem cleared_iff_grammar (l : Locale) :
    ((∃ m, l.cleared = .ok m) ↔ ∀ f : Field, f.WellFormed (f.of l.modernSpelling)) ∧
      (∀ m, l.cleared = .ok m →
        m = l.modernSpelling ∧ m.hasExtensions = false ∧ m.validate = .ok () ∧
          m.cleared = .ok m ∧ m.availabilityKey = m) ∧
      (∀ e, l.cleared = .error e → l.modernSpelling.IsFirstFault e) ∧
      ∀ k : Locale, k.bare = l.bare → k.cleared = l.cleared := by
  refine ⟨?_, fun m hm => ?_, fun e he => ?_, fun k hk => cleared_congr hk⟩
  · rw [← modernized_eq_modernSpelling, ← validate_eq_ok_iff_wellFormed, validate_eq_ok_iff]
    simp only [cleared_eq_ok_iff, exists_and_left, exists_eq', and_true]
  · have hagain := cleared_of_cleared hm
    obtain ⟨hfault, rfl⟩ := cleared_eq_ok_iff.mp hm
    have hext := l.hasExtensions_modernized
    exact ⟨l.modernized_eq_modernSpelling, hext, validate_eq_ok_iff.mpr hfault, hagain,
      availabilityKey_of_not_hasExtensions hext⟩
  · rw [← modernized_eq_modernSpelling]
    exact fault?_eq_some_iff.mp (cleared_eq_error_iff.mp he)

/-- Old Nynorsk in Latin script is cleared to its modern spelling; a doubled separator in a
    variant is reported with the whole variant. -/
theorem cleared_iff_grammar_nynorsk :
    let nynorsk := (ofFields "no" "Latn" "NO" "NY").withExtension 'u' "nu-latn"
    let slovene := (ofFields "sl" "" "IT" "rozaj__1994").withExtension 'u' "nu-latn"
    nynorsk.cleared = .ok (ofFields "nn" "Latn" "NO" "") ∧
      (ofFields "nn" "Latn" "NO" "").cleared = .ok (ofFields "nn" "Latn" "NO" "") ∧
      slovene.cleared = .error ⟨.variant, "rozaj__1994"⟩ ∧
      slovene.modernSpelling.IsFirstFault ⟨.variant, "rozaj__1994"⟩ := by
  intro nynorsk slovene
  have hnynorsk : nynorsk.cleared = .ok (ofFields "nn" "Latn" "NO" "") :=
    cleared_eq_ok_iff.mpr (by decide)
  have hslovene : slovene.cleared = .error ⟨.variant, "rozaj__1994"⟩ :=
    cleared_eq_error_iff.mpr (by decide)
  obtain ⟨-, hok, -, -⟩ := cleared_iff_grammar nynorsk
  obtain ⟨-, -, herror, -⟩ := cleared_iff_grammar slovene
  obtain ⟨-, -, -, hagain, -⟩ := hok _ hnynorsk
  exact ⟨hnynorsk, hagain, hslovene, herror _ hslovene⟩

end Locale

end LocaleServices

import LocaleServices.Proofs.Locale.Inheritance

/-!
  Reading identifiers back.

  `Shown.ofText` takes an identifier apart: the language ends at the first underscore and the
  region at the second, and the script stands behind the number sign. The parts of a locale
  without extensions are found whatever is missing (`ofText_identifier`), since a
  well-formed field has no separator of its own (`WellFormed.isLetter_or_isDigit`).
  `ofIdentifier` makes a locale of the parts, with the marker of a legacy form that has one.
  Main statements: it gives back every readable locale (`ofIdentifier_identifier`), so no two
  of them share an identifier (`eq_of_identifier_eq`).
-/

namespace LocaleServices

open Text

/-! ## Characters of well-formed fields -/

namespace Field

open Subtag

/-- Only variants have something else than letters and digits, their own separators. -/
theorem WellFormed.isLetter_or_isDigit {f : Field} {s : String} (h : f.WellFormed s) {c : Char}
    (hc : c ∈ s.toList) : IsLetter c ∨ IsDigit c ∨ f = variant ∧ isSeparator c = true := by
  rcases h with rfl | h
  · cases hc
  cases f with
  | language => exact Or.inl (h.1 c hc)
  | script => exact Or.inl (h.1 c hc)
  | region => exact h.imp (fun hr => hr.1 c hc) fun hr => Or.inl (hr.1 c hc)
  | variant =>
    obtain ⟨ps, hcut, hpieces⟩ := h
    rcases hcut.isSep_or_mem hc with hsep | ⟨p, hp, hcp⟩
    · exact Or.inr (Or.inr ⟨rfl, hsep⟩)
    · rcases hpieces p hp with ⟨halnum, -⟩ | ⟨d, r, rfl, hd, hr, -⟩
      · exact (halnum c hcp).imp_right Or.inl
      · rcases List.mem_cons.mp hcp with rfl | hcr
        · exact Or.inr (Or.inl hd)
        · exact (hr c hcr).imp_right Or.inl

theorem WellFormed.notMem_underscore {f : Field} {s : String} (h : f.WellFormed s)
    (hf : f ≠ variant) : '_' ∉ s.toList := by
  intro hc
  rcases h.isLetter_or_isDigit hc with hl | hd | ⟨hv, -⟩
  · exact absurd hl (by decide)
  · exact absurd hd (by decide)
  · exact hf hv

theorem WellFormed.notMem_numberSign {f : Field} {s : String} (h : f.WellFormed s) :
    '#' ∉ s.toList := by
  intro hc
  rcases h.isLetter_or_isDigit hc with hl | hd | ⟨-, hs⟩
  · exact absurd hl (by decide)
  · exact absurd hd (by decide)
  · exact absurd hs (by decide)

end Field

namespace Locale

variable {l a b : Locale}

/-! ## The parts of an identifier -/

/-- What an identifier shows. -/
structure Shown where
  language : String
  region : String
  variant : String
  /-- What stands behind the number sign. -/
  detail : String

/-- The variant in what stands behind the region. -/
def variantIn (s : List Char) : List Char :=
  if '#' ∈ s then (upTo '#' s).dropLast else s

/-- Takes an identifier apart. -/
def Shown.ofText (s : List Char) : Shown :=
  let rest := beyond '_' s
  { language := String.ofList (upTo '_' s)
    region := String.ofList (upTo '_' rest)
    variant := String.ofList (variantIn (beyond '_' rest))
    detail := String.ofList (beyond '#' (beyond '_' rest)) }

/-- What stands behind the region and an underscore. -/
def remainder (l : Locale) : List Char :=
  if l.script = "" then l.variant.toList
  else if l.variant = "" then '#' :: l.script.toList
  else l.variant.toList ++ ['_'] ++ '#' :: l.script.toList

theorem remainder_eq_nil_iff : l.remainder = [] ↔ l.script = "" ∧ l.variant = "" := by
  unfold remainder
  by_cases hs : l.script = ""
  · simp [hs]
  · by_cases hv : l.variant = "" <;> simp [hs, hv]

theorem variantIn_remainder (h : '#' ∉ l.variant.toList) :
    variantIn l.remainder = l.variant.toList := by
  unfold variantIn remainder
  by_cases hs : l.script = ""
  · rw [if_pos hs, if_neg h]
  · rw [if_neg hs]
    by_cases hv : l.variant = ""
    · rw [if_pos hv, if_pos List.mem_cons_self, hv]
      exact congrArg List.dropLast (upTo_append (s := []) (by simp) _)
    · have hfront : '#' ∉ l.variant.toList ++ ['_'] := by simpa using h
      rw [if_neg hv, if_pos (by simp), upTo_append hfront, List.dropLast_concat]

theorem beyond_remainder (h : '#' ∉ l.variant.toList) :
    beyond '#' l.remainder = l.script.toList := by
  unfold remainder
  by_cases hs : l.script = ""
  · rw [if_pos hs, beyond_of_notMem h, hs]
    rfl
  · rw [if_neg hs]
    by_cases hv : l.variant = ""
    · rw [if_pos hv]
      exact beyond_append (s := []) (by simp) _
    · have hfront : '#' ∉ l.variant.toList ++ ['_'] := by simpa using h
      rw [if_neg hv, beyond_append hfront]

/-- An identifier without extensions: the language, and as many separators behind it as the
    fields need that follow. -/
theorem toList_identifier (he : l.hasExtensions = false) (h : l.language ≠ "" ∨ l.region ≠ "") :
    l.identifier.toList = l.language.toList ++
      if l.remainder ≠ [] then '_' :: (l.region.toList ++ '_' :: l.remainder)
      else if l.region ≠ "" then '_' :: l.region.toList
      else [] := by
  unfold identifier regionPart finalParts remainder
  by_cases hr : l.region = ""
  · have hl : l.language ≠ "" := h.resolve_right fun hne => hne hr
    by_cases hs : l.script = "" <;> by_cases hv : l.variant = "" <;>
      simp [he, hl, hr, hs, hv]
  · by_cases hs : l.script = "" <;> by_cases hv : l.variant = "" <;>
      simp [he, hr, hs, hv]

/-- The parts are found if the fields have no separators of their own. -/
theorem ofText_identifier (he : l.hasExtensions = false) (h : l.language ≠ "" ∨ l.region ≠ "")
    (hl : '_' ∉ l.language.toList) (hr : '_' ∉ l.region.toList) (hv : '#' ∉ l.variant.toList) :
    Shown.ofText l.identifier.toList = ⟨l.language, l.region, l.variant, l.script⟩ := by
  have hvariant := variantIn_remainder hv
  have hdetail := beyond_remainder hv
  rw [toList_identifier he h]
  unfold Shown.ofText
  dsimp only
  by_cases hm : l.remainder = []
  · rw [if_neg fun hne => hne hm]
    by_cases hregion : l.region = ""
    · obtain ⟨hs, hv⟩ := remainder_eq_nil_iff.mp hm
      rw [if_neg fun hne => hne hregion, List.append_nil, upTo_of_notMem hl,
        beyond_of_notMem hl, hregion, hs, hv, String.ofList_toList]
      rfl
    · rw [if_pos hregion, upTo_append hl, beyond_append hl, upTo_of_notMem hr,
        beyond_of_notMem hr, ← hm, hvariant, hdetail]
      simp only [String.ofList_toList]
  · rw [if_pos hm, upTo_append hl, beyond_append hl, upTo_append hr, beyond_append hr,
      hvariant, hdetail]
    simp only [String.ofList_toList]

/-! ## Readable locales -/

/-- The two irregular locales, and those that have no extensions and no fault and at least a
    language or a region. -/
def IsReadable (l : Locale) : Prop :=
  l = japaneseCalendar ∨ l = thaiDigits ∨ l.IsClean ∧ (l.language ≠ "" ∨ l.region ≠ "")

/-- The locale that an identifier stands for: a legacy form with its marker, or else a locale
    without extensions. -/
def ofIdentifier (s : String) : Locale :=
  let shown := Shown.ofText s.toList
  match Legacy.ofFields? shown.language shown.region shown.variant with
  | some form => ⟨shown.language, "", shown.region, shown.variant, form.marker⟩
  | none => ⟨shown.language, shown.detail, shown.region, shown.variant, .empty⟩

/-- A readable locale is read back from its identifier. -/
theorem ofIdentifier_identifier (h : l.IsReadable) : ofIdentifier l.identifier = l := by
  rcases h with rfl | rfl | ⟨hclean, hne⟩
  · decide
  · decide
  · have hfields := validate_eq_ok_iff_fields.mp hclean.validate
    have hlegacy : Legacy.ofFields? l.language l.region l.variant = none :=
      legacy?_eq_none_of_wellFormed hfields.variant
    have hext := hasExtensions_eq_false_iff.mp hclean.hasExtensions
    unfold ofIdentifier
    rw [ofText_identifier hclean.hasExtensions hne (hfields.language.notMem_underscore (by decide))
      (hfields.region.notMem_underscore (by decide)) hfields.variant.notMem_numberSign]
    dsimp only
    rw [hlegacy, ← hext]

/-- No two readable locales share an identifier. -/
theorem eq_of_identifier_eq (ha : a.IsReadable) (hb : b.IsReadable)
    (h : a.identifier = b.identifier) : a = b := by
  calc
    a = ofIdentifier a.identifier := (ofIdentifier_identifier ha).symm
    _ = ofIdentifier b.identifier := by rw [h]
    _ = b := ofIdentifier_identifier hb

/-- A variant in two pieces and a script, without a region; letter case is not shown. -/
theorem eq_of_identifier_eq_slovene :
    let a := ofFields "SL" "latn" "" "rozaj-1994"
    let b := (ofFields "sl" "Latn" "" "rozaj-1994").withExtension 'u' ""
    a.IsReadable ∧ b.IsReadable ∧ a.identifier = b.identifier ∧ a = b := by
  intro a b
  have ha : a.IsReadable := Or.inr (Or.inr ⟨⟨by decide, by decide⟩, by decide⟩)
  have hb : b.IsReadable := Or.inr (Or.inr ⟨⟨by decide, by decide⟩, by decide⟩)
  have hshown : a.identifier = b.identifier := by decide
  exact ⟨ha, hb, hshown, eq_of_identifier_eq ha hb hshown⟩

example : ofIdentifier "sr__#Latn" = ofFields "sr" "Latn" "" "" := by decide

end Locale

end LocaleServices

import LocaleServices.Proofs.Locale.Grammar
import LocaleServices.Proofs.Locale.Norwegian

/-!
  Candidates of a well-formed locale.

  A change of letter case keeps a field in the grammar, and so does cutting a variant at its
  last `_` (`WellFormed.truncation`): the pieces on the left are pieces of the whole. A
  locale made from well-formed fields `IsClean`: it validates and has no extensions, since
  the marker of a legacy form goes with an ill-formed variant. Hence all entries of an
  ordinary chain are clean, and with them those of Bokmål and of Chinese; a Nynorsk chain has
  the old spelling besides. Main statement: `candidates_inherit`.
-/

namespace LocaleServices

/-! ## Fields in another case -/

namespace Subtag

theorem IsLetter.toLower {c : Char} (h : IsLetter c) : IsLetter c.toLower := by
  rwa [← isAlpha_iff, Char.isAlpha_toLower_eq_isAlpha, isAlpha_iff]

theorem IsLetter.toUpper {c : Char} (h : IsLetter c) : IsLetter c.toUpper := by
  rwa [← isAlpha_iff, Char.isAlpha_toUpper_eq_isAlpha, isAlpha_iff]

theorem IsDigit.toUpper_eq {c : Char} (h : IsDigit c) : c.toUpper = c := by
  refine Char.toUpper_eq_of_not_isLower fun hl => ?_
  simp only [IsDigit, Char.isLower, Char.le_def, Bool.and_eq_true, decide_eq_true_eq,
    UInt32.le_iff_toNat_le] at h hl
  have h9 : '9'.val.toNat = 57 := rfl
  have ha : 'a'.val.toNat = 97 := rfl
  omega

end Subtag

namespace Field

open Subtag

theorem WellFormed.lower {s : String} (h : language.WellFormed s) :
    language.WellFormed (Text.lower s) := by
  rcases h with rfl | ⟨hletters, hlength⟩
  · exact Or.inl rfl
  · refine Or.inr ⟨?_, ?_⟩
    · rw [Text.toList_lower, List.forall_mem_map]
      exact fun c hc => (hletters c hc).toLower
    · rwa [Text.toList_lower, List.length_map]

theorem WellFormed.titled {s : String} (h : script.WellFormed s) :
    script.WellFormed (Text.titled s) := by
  rcases h with rfl | ⟨hletters, hlength⟩
  · exact Or.inl rfl
  · refine Or.inr ?_
    rw [Grammar, Text.toList_titled]
    cases hs : s.toList with
    | nil =>
      rw [hs] at hlength
      cases hlength
    | cons c r =>
      rw [hs] at hletters hlength
      obtain ⟨hc, hr⟩ := List.forall_mem_cons.mp hletters
      refine ⟨List.forall_mem_cons.mpr ⟨hc.toUpper, ?_⟩, ?_⟩
      · rw [List.forall_mem_map]
        exact fun d hd => (hr d hd).toLower
      · rw [Text.titledChars, List.length_cons, List.length_map]
        exact hlength

theorem WellFormed.upper {s : String} (h : region.WellFormed s) :
    region.WellFormed (Text.upper s) := by
  rcases h with rfl | ⟨hletters, hlength⟩ | ⟨hdigits, hlength⟩
  · exact Or.inl rfl
  · refine Or.inr (Or.inl ⟨?_, ?_⟩)
    · rw [Text.toList_upper, List.forall_mem_map]
      exact fun c hc => (hletters c hc).toUpper
    · rwa [Text.toList_upper, List.length_map]
  · refine Or.inr (Or.inr ⟨?_, ?_⟩)
    · rw [Text.toList_upper, List.forall_mem_map]
      intro c hc
      rw [(hdigits c hc).toUpper_eq]
      exact hdigits c hc
    · rwa [Text.toList_upper, List.length_map]

/-! ## Truncated variants -/

theorem grammar_variant_iff {s : List Char} :
    variant.Grammar s ↔ ∀ p ∈ Text.pieceChars isSeparator s, IsPiece p := by
  simp only [Grammar, Text.isCut_iff, exists_eq_left]

/-- What stands before a separator of a well-formed variant is well-formed. -/
theorem WellFormed.truncation {s p : String} (h : variant.WellFormed s)
    (hp : p ∈ Text.truncations '_' s) : variant.WellFormed p := by
  obtain ⟨hs, rfl | ⟨t, ht⟩⟩ := Text.mem_truncations_iff.mp hp
  · exact h
  · have hpieces := grammar_variant_iff.mp (h.resolve_left hs)
    have hcut : Text.pieceChars isSeparator s.toList =
        Text.pieceChars isSeparator p.toList ++ Text.pieceChars isSeparator t := by
      rw [← ht, List.append_assoc, List.singleton_append, Text.pieceChars_append (by decide)]
    rw [hcut] at hpieces
    exact Or.inr (grammar_variant_iff.mpr fun q hq => hpieces q (List.mem_append_left _ hq))

theorem WellFormed.not_opensWith {s : String} (h : variant.WellFormed s) :
    ¬ Text.OpensWith '_' s := by
  intro hopens
  obtain ⟨t, ht⟩ := List.head?_eq_some_iff.mp hopens
  rcases h with rfl | h
  · cases hopens
  · have hempty : IsPiece [] := by
      refine grammar_variant_iff.mp h [] ?_
      rw [ht, ← List.nil_append ('_' :: t), Text.pieceChars_append (by decide)]
      exact List.mem_append_left _ List.mem_cons_self
    simp [IsPiece] at hempty

end Field

/-! ## Clean locales -/

/-- Four texts that the checks accept. -/
structure WellFormedFields (language script region variant : String) : Prop where
  language : Field.language.WellFormed language
  script : Field.script.WellFormed script
  region : Field.region.WellFormed region
  variant : Field.variant.WellFormed variant

namespace Locale

theorem validate_eq_ok_iff_fields {l : Locale} :
    l.validate = .ok () ↔ WellFormedFields l.language l.script l.region l.variant := by
  rw [validate_eq_ok_iff_wellFormed]
  constructor
  · intro h
    exact ⟨h .language, h .script, h .region, h .variant⟩
  · rintro ⟨hl, hs, hr, hv⟩ f
    cases f with
    | language => exact hl
    | script => exact hs
    | region => exact hr
    | variant => exact hv

/-- Without extensions and without a fault. -/
structure IsClean (d : Locale) : Prop where
  hasExtensions : d.hasExtensions = false
  validate : d.validate = .ok ()

section Chains

variable {language script region variant : String}

theorem isClean_ofFields (h : WellFormedFields language script region variant) :
    (ofFields language script region variant).IsClean := by
  have husual := isUsual_ofFields language script region variant
  have hfields := husual.rebuilt_eq_self_iff.mp (rebuilt_ofFields language script region variant)
  have hlegacy : (ofFields language script region variant).legacy? = none :=
    legacy?_eq_none_of_wellFormed h.variant
  refine ⟨?_, validate_eq_ok_iff_fields.mpr
    ⟨h.language.lower, h.script.titled, h.region.upper, h.variant⟩⟩
  rw [hasExtensions_eq_false_iff, hfields, markerOf_eq_empty_iff]
  simp [standsForMarker, hlegacy]

theorem isClean_root : root.IsClean := ⟨rfl, validate_eq_ok_iff.mpr (by decide)⟩

theorem isClean_of_mem_ordinaryChain (h : WellFormedFields language script region variant)
    {d : Locale} (hd : d ∈ ordinaryChain language script region variant) : d.IsClean := by
  rcases mem_ordinaryChain.mp hd with rfl | ⟨s, r, v, hs, hk, rfl⟩
  · exact isClean_root
  · have hscript : Field.script.WellFormed s := by
      rcases hs with rfl | rfl
      · exact h.script
      · exact Or.inl rfl
    obtain ⟨hregion, hvariant⟩ : Field.region.WellFormed r ∧ Field.variant.WellFormed v := by
      rcases hk with ⟨rfl, rfl⟩ | ⟨rfl, rfl | hv⟩
      · exact ⟨Or.inl rfl, Or.inl rfl⟩
      · exact ⟨h.region, Or.inl rfl⟩
      · exact ⟨h.region, h.variant.truncation hv⟩
    exact isClean_ofFields ⟨h.language, hscript, hregion, hvariant⟩

/-- The twin of an entry has its script, its region and its variant. -/
theorem IsClean.twin {d : Locale} (h : d.IsClean) : d.twin.IsClean := by
  have hfields := validate_eq_ok_iff_fields.mp h.validate
  exact isClean_ofFields
    ⟨by decide, hfields.script, hfields.region, hfields.variant⟩

theorem isClean_of_mem_bokmalChain (h : WellFormedFields "nb" script region variant)
    {d : Locale} (hd : d ∈ bokmalChain script region variant) : d.IsClean := by
  obtain ⟨e, he, hd⟩ := List.mem_flatMap.mp hd
  have hclean := isClean_of_mem_ordinaryChain h he
  unfold withTwin at hd
  split at hd
  · rwa [List.mem_singleton.mp hd]
  · rcases List.mem_pair.mp hd with rfl | rfl
    · exact hclean
    · exact hclean.twin

/-- The entry of a Nynorsk chain that is spelled as before. -/
def oldNynorsk : Locale := unscripted "no" "NO" "NY"

theorem validate_oldNynorsk : oldNynorsk.validate = .error ⟨.variant, "NY"⟩ := by
  have hfault : oldNynorsk.fault? = some ⟨.variant, "NY"⟩ := by decide
  rw [validate, hfault]

theorem wellFormed_oldNynorsk_iff (f : Field) :
    f.WellFormed (f.of oldNynorsk) ↔ f ≠ .variant := by
  cases f <;> decide

theorem IsClean.ne_oldNynorsk {d : Locale} (h : d.IsClean) : d ≠ oldNynorsk := by
  rintro rfl
  have hok := h.validate
  rw [validate_oldNynorsk] at hok
  cases hok

theorem isClean_of_mem_nynorskChain (h : WellFormedFields "nn" script region variant)
    {d : Locale} (hd : d ∈ nynorskChain script region variant) :
    d.IsClean ∨ d = oldNynorsk := by
  have hno : ∀ r, Field.region.WellFormed r → (unscripted "no" r "").IsClean := fun r hr =>
    isClean_ofFields ⟨by decide, Or.inl rfl, hr, Or.inl rfl⟩
  simp only [nynorskChain, List.mem_append, List.mem_cons, List.not_mem_nil, or_false] at hd
  rcases hd with hd | rfl | rfl | rfl | rfl
  · exact Or.inl (isClean_of_mem_ordinaryChain h (List.dropLast_subset _ hd))
  · exact Or.inr rfl
  · exact Or.inl (hno "NO" (by decide))
  · exact Or.inl (hno "" (Or.inl rfl))
  · exact Or.inl isClean_root

theorem oldNynorsk_mem_nynorskChain : oldNynorsk ∈ nynorskChain script region variant :=
  List.mem_append_right _ List.mem_cons_self

/-! ## Chinese -/

theorem wellFormed_chineseScript (region : String) :
    Field.script.WellFormed (chineseScript region) := by
  unfold chineseScript
  split
  · decide
  · split <;> decide

theorem wellFormed_chineseRegion (script : String) :
    Field.region.WellFormed (chineseRegion script) := by
  unfold chineseRegion
  split
  · decide
  · split <;> decide

theorem isClean_of_mem_chineseChain (h : WellFormedFields "zh" script region variant)
    {d : Locale} (hd : d ∈ chineseChain script region variant) : d.IsClean := by
  unfold chineseChain at hd
  split at hd
  · exact isClean_of_mem_ordinaryChain
      ⟨h.language, wellFormed_chineseScript region, h.region, h.variant⟩ hd
  · split at hd
    · exact isClean_of_mem_ordinaryChain
        ⟨h.language, h.script, wellFormed_chineseRegion script, h.variant⟩ hd
    · exact isClean_of_mem_ordinaryChain h hd

end Chains

/-! ## Candidates -/

section Candidates

variable {l d : Locale}

/-- Outside of Nynorsk all candidates are clean. -/
theorem isClean_of_mem_candidates (h : l.validate = .ok ()) (hl : l.language ≠ "nn")
    (hd : d ∈ l.candidates) : d.IsClean := by
  have hfields := validate_eq_ok_iff_fields.mp h
  have hrenamed : ∀ language, Field.language.WellFormed language →
      WellFormedFields language l.script l.region l.variant := fun _ hlanguage =>
    ⟨hlanguage, hfields.script, hfields.region, hfields.variant⟩
  unfold candidates at hd
  split at hd
  · rename_i hlegacy
    rw [legacy?_eq_none_of_wellFormed hfields.variant] at hlegacy
    cases hlegacy
  · split at hd
    · exact isClean_of_mem_bokmalChain (hrenamed "nb" (by decide)) hd
    · split at hd
      · exact isClean_of_mem_chineseChain (hrenamed "zh" (by decide)) hd
      · exact isClean_of_mem_ordinaryChain hfields hd

/-- The candidates of a well-formed locale are well-formed and without extensions, but for
    the old spelling in a chain of Nynorsk, which comes up once and fails on its variant
    alone. -/
theorem candidates_inherit (h : l.validate = .ok ()) :
    (∀ d ∈ l.candidates, d.hasExtensions = false ∧
        d.validate = if d = oldNynorsk then .error ⟨.variant, "NY"⟩ else .ok ()) ∧
      (l.candidates.count oldNynorsk = if l.language = "nn" then 1 else 0) ∧
      ∀ f : Field, f.WellFormed (f.of oldNynorsk) ↔ f ≠ .variant := by
  have hfields := validate_eq_ok_iff_fields.mp h
  have hclean : ∀ {d : Locale}, d.IsClean → d.hasExtensions = false ∧
      d.validate = if d = oldNynorsk then .error ⟨.variant, "NY"⟩ else .ok () := fun hd =>
    ⟨hd.hasExtensions, hd.validate.trans (if_neg hd.ne_oldNynorsk).symm⟩
  by_cases hl : l.language = "nn"
  · have hchain := candidates_of_nynorsk hl
    have hnodup : l.candidates.Nodup :=
      (nodup_candidates_iff l).mpr hfields.variant.not_opensWith
    rw [hchain] at hnodup ⊢
    refine ⟨fun d hd => ?_, ?_, wellFormed_oldNynorsk_iff⟩
    · rcases isClean_of_mem_nynorskChain (hl ▸ hfields) hd with hd | rfl
      · exact hclean hd
      · exact ⟨by decide, validate_oldNynorsk.trans (if_pos rfl).symm⟩
    · rw [if_pos hl, List.count_eq_one_of_mem hnodup oldNynorsk_mem_nynorskChain]
  · refine ⟨fun d hd => hclean (isClean_of_mem_candidates h hl hd), ?_, wellFormed_oldNynorsk_iff⟩
    rw [if_neg hl, List.count_eq_zero]
    exact fun hd => (isClean_of_mem_candidates h hl hd).ne_oldNynorsk rfl

end Candidates

/-- Nynorsk in Latin script with a dialect and an extension: the truncated variant and the
    inferred entries are well-formed, the old spelling is not. -/
theorem candidates_inherit_nynorsk :
    let l := (ofFields "nn" "Latn" "NO" "hognorsk-1938_vestland").withExtension 'u' "nu-latn"
    let dialect := ofFields "nn" "" "NO" "hognorsk-1938"
    l.validate = .ok () ∧ dialect ∈ l.candidates ∧ dialect.validate = .ok () ∧
      oldNynorsk ∈ l.candidates ∧ oldNynorsk.hasExtensions = false ∧
      oldNynorsk.validate = .error ⟨.variant, "NY"⟩ ∧ l.candidates.count oldNynorsk = 1 := by
  intro l dialect
  have hvalid : l.validate = .ok () := validate_eq_ok_iff.mpr (by decide)
  have hdialect : dialect ∈ l.candidates := by decide
  have hold : oldNynorsk ∈ l.candidates := by decide
  obtain ⟨hall, hcount, -⟩ := candidates_inherit hvalid
  obtain ⟨-, hvalidate⟩ := hall dialect hdialect
  obtain ⟨hext, hfails⟩ := hall oldNynorsk hold
  exact ⟨hvalid, hdialect, hvalidate, hold, hext, hfails, hcount⟩

end Locale

end LocaleServices

import LocaleServices.Proofs.Locale.Narrowing

/-!
  What an ordinary chain holds, how long it is, and what its entries fall back to.

  The content of a chain is given by the requested fields alone: the script is kept or
  dropped, and of region and variant `Keeps` says what is left (`keeps_iff`). The truncations
  of a truncation come last among those of the variant, so a chain that starts from an entry
  is part of the chain (`ordinaryChain_sublist`). Main statements: `candidates_ordinary` and
  `candidates_sublist`.
-/

namespace LocaleServices.Locale

/-! ## Content -/

section Content

variable (language script region variant : String)

/-- A chain keeps nothing, the region, or the region with the variant up to a separator. -/
theorem keeps_iff {r v : String} :
    Keeps region variant r v ↔
      r = "" ∧ v = "" ∨
        r = region ∧ (v = "" ∨ v = variant ∨ v.toList ++ ['_'] <+: variant.toList) := by
  have hcut : v = "" ∨ v ∈ Text.truncations '_' variant ↔
      v = "" ∨ v = variant ∨ v.toList ++ ['_'] <+: variant.toList := by
    rw [Text.mem_truncations_iff]
    by_cases hv : variant = "" <;> simp [hv]
  rw [Keeps, hcut]

theorem head?_regionalCandidates :
    (regionalCandidates language script region variant).head? =
      if region = "" ∧ variant = "" then none
      else some (ofFields language script region variant) := by
  by_cases hv : variant = ""
  · by_cases hr : region = "" <;> simp [regionalCandidates, hr, hv]
  · simp [regionalCandidates, Text.truncations_of_ne '_' hv, Text.truncatedChars, hv]

/-- A chain opens with the requested fields. -/
theorem head?_ordinaryChain :
    (ordinaryChain language script region variant).head? =
      some (ofFields language script region variant) := by
  simp only [ordinaryChain, scriptedCandidates, restartCandidates, List.head?_append,
    head?_regionalCandidates]
  by_cases hrv : region = "" ∧ variant = ""
  · obtain ⟨rfl, rfl⟩ := hrv
    by_cases hs : script = ""
    · by_cases hl : language = ""
      · simp [hs, hl, root_eq_ofFields]
      · simp [hs, hl, ofLanguage, unscripted]
    · simp [hs]
  · simp [hrv]

/-- Entries with the script come first. -/
theorem ordinaryChain_pairwise_script :
    (ordinaryChain language script region variant).Pairwise fun a b =>
      a.script = "" → b.script = "" := by
  apply pairwise_ordinaryChain
  · intro a b hgen ha
    exact hgen.script.elim id fun he => he.trans ha
  · intro _ a b _ hb _
    exact hb

theorem length_optionalEntry (field : String) (d : Locale) :
    (if field = "" then [] else [d]).length = given field := by
  unfold given
  split <;> rfl

theorem length_regionalCandidates :
    (regionalCandidates language script region variant).length =
      Text.pieceCount '_' variant + given region := by
  rw [regionalCandidates, List.length_append, List.length_map, Text.length_truncations_eq,
    length_optionalEntry]

/-- The region and the truncations of the variant come up once, and once more when there is
    a script to drop; then the script alone, the language alone and the root. -/
theorem length_ordinaryChain :
    (ordinaryChain language script region variant).length =
      (1 + given script) * (Text.pieceCount '_' variant + given region) + given script +
        given language + 1 := by
  have hrestart : (restartCandidates language script region variant).length =
      given script * (Text.pieceCount '_' variant + given region) := by
    unfold restartCandidates given
    split
    · simp
    · rw [length_regionalCandidates, Nat.one_mul]
      rfl
  simp only [ordinaryChain, scriptedCandidates, List.length_append, length_optionalEntry, hrestart,
    length_regionalCandidates, List.length_singleton]
  rw [Nat.add_mul, Nat.one_mul]
  omega

end Content

/-! ## Chains within chains -/

section Within

variable {script region variant s r v : String} (language : String)

theorem regionalCandidates_sublist (hk : Keeps region variant r v) :
    (regionalCandidates language s r v).Sublist (regionalCandidates language s region variant) := by
  rcases hk with ⟨rfl, rfl⟩ | ⟨rfl, hv⟩
  · exact List.nil_sublist _
  · have hsuffix : Text.truncations '_' v <:+ Text.truncations '_' variant := by
      rcases hv with rfl | hv
      · exact List.nil_suffix
      · exact Text.truncations_suffix hv
    exact (hsuffix.map _).sublist.append_right _

/-- A chain that starts from what an entry keeps is part of the chain. -/
theorem ordinaryChain_sublist (hs : s = script ∨ s = "") (hk : Keeps region variant r v) :
    (ordinaryChain language s r v).Sublist (ordinaryChain language script region variant) := by
  have hentries : (scriptedCandidates language s r v ++ restartCandidates language s r v).Sublist
      (scriptedCandidates language script region variant ++
        restartCandidates language script region variant) := by
    by_cases he : s = script
    · subst he
      have hrestart : (restartCandidates language s r v).Sublist
          (restartCandidates language s region variant) := by
        unfold restartCandidates
        split
        · exact List.nil_sublist _
        · exact regionalCandidates_sublist language hk
      exact ((regionalCandidates_sublist language hk).append_right _).append hrestart
    · -- The entry has dropped the script: its chain lies within the second start.
      obtain rfl : s = "" := hs.resolve_left he
      have hscript : script ≠ "" := fun h => he h.symm
      simp only [scriptedCandidates, restartCandidates, if_pos, if_neg hscript, List.append_nil]
      exact (regionalCandidates_sublist language hk).trans (List.sublist_append_right _ _)
  exact (hentries.append_right _).append_right _

end Within

/-! ## Candidates -/

theorem legacy?_ne_nynorsk {l : Locale} (h : l.language ≠ "no") : l.legacy? ≠ some .nynorsk :=
  fun he => h (Legacy.ofFields?_eq_some_iff.mp he).1.symm

theorem candidates_eq_ordinaryChain {l : Locale} (h : l.language ∉ ["no", "nb", "nn", "zh"]) :
    l.candidates = ordinaryChain l.language l.script l.region l.variant := by
  simp only [List.mem_cons, List.not_mem_nil, or_false, not_or] at h
  obtain ⟨hno, hnb, hnn, hzh⟩ := h
  simp [candidates, legacy?_ne_nynorsk hno, hno, hnb, hnn, hzh]

/-- The chain of a locale that is neither Norwegian nor Chinese: it opens with the requested
    fields; it holds the root and what keeps or drops the script, and keeps nothing, the
    region, or the region and the variant up to one of its separators; entries without a
    script come after those with one; and its length follows from the fields. -/
theorem candidates_ordinary {l : Locale} (h : l.language ∉ ["no", "nb", "nn", "zh"]) :
    l.candidates.head? = some (ofFields l.language l.script l.region l.variant) ∧
      (∀ d, d ∈ l.candidates ↔
        d = root ∨ ∃ s r v, (s = l.script ∨ s = "") ∧
          (r = "" ∧ v = "" ∨
            r = l.region ∧ (v = "" ∨ v = l.variant ∨ v.toList ++ ['_'] <+: l.variant.toList)) ∧
          d = ofFields l.language s r v) ∧
      (l.candidates.Pairwise fun a b => a.script = "" → b.script = "") ∧
      l.candidates.length =
        (1 + given l.script) * (Text.pieceCount '_' l.variant + given l.region) +
          given l.script + given l.language + 1 := by
  rw [candidates_eq_ordinaryChain h]
  refine ⟨head?_ordinaryChain _ _ _ _, fun d => ?_, ordinaryChain_pairwise_script _ _ _ _,
    length_ordinaryChain _ _ _ _⟩
  rw [mem_ordinaryChain]
  simp only [keeps_iff]

/-- Serbian in Latin script with a doubled separator in its variant: eleven candidates, one
    of them with a variant that ends in a separator. -/
theorem candidates_ordinary_serbian :
    let serbian := ofFields "sr" "Latn" "RS" "a__b"
    serbian.language ∉ ["no", "nb", "nn", "zh"] ∧
      serbian.candidates.head? = some serbian ∧
      ofFields "sr" "" "RS" "a_" ∈ serbian.candidates ∧
      (serbian.candidates.Pairwise fun a b => a.script = "" → b.script = "") ∧
      serbian.candidates.length = 11 := by
  intro serbian
  have hl : serbian.language ∉ ["no", "nb", "nn", "zh"] := by decide
  obtain ⟨hhead, hmem, hscript, hlength⟩ := candidates_ordinary hl
  refine ⟨hl, hhead, (hmem _).mpr (Or.inr ⟨"", "RS", "a_", Or.inr rfl, Or.inr ?_, rfl⟩), hscript,
    hlength.trans (by decide)⟩
  exact ⟨by decide, Or.inr (Or.inr (by decide))⟩

/-- Falling back from a candidate stays within the chain and keeps its order. -/
theorem candidates_sublist {l d : Locale} (h : l.Built)
    (hl : l.language ∉ ["no", "nb", "nn", "zh"]) (hd : d ∈ l.candidates) :
    d.candidates.Sublist l.candidates := by
  rw [candidates_eq_ordinaryChain hl] at hd ⊢
  rcases mem_ordinaryChain.mp hd with rfl | ⟨s, r, v, hs, hk, rfl⟩
  · have hroot : root.candidates = [root] := by decide
    rw [hroot, List.singleton_sublist]
    exact hd
  · have husual := h.isUsual
    have hlanguage : Text.lower l.language = l.language := husual.language
    have hscript : Text.titled s = s := by
      rcases hs with rfl | rfl
      · exact husual.script
      · rfl
    have hregion : Text.upper r = r := by
      rcases hk with ⟨rfl, -⟩ | ⟨rfl, -⟩
      · rfl
      · exact husual.region
    have hchain : (ofFields l.language s r v).candidates = ordinaryChain l.language s r v := by
      rw [candidates_eq_ordinaryChain (by rwa [language_ofFields, hlanguage]), language_ofFields,
        script_ofFields, region_ofFields, variant_ofFields, hlanguage, hscript, hregion]
    rw [hchain]
    exact ordinaryChain_sublist l.language hs hk

/-- Japanese in Latin script with its calendar: the irregular candidate falls back to
    entries that the request tries as well. -/
theorem candidates_sublist_japanese :
    let l := (ofFields "ja" "Latn" "JP" "JP").withExtension 'x' "foo"
    l.Built ∧ l.language ∉ ["no", "nb", "nn", "zh"] ∧ japaneseCalendar ∈ l.candidates ∧
      japaneseCalendar.candidates.Sublist l.candidates := by
  intro l
  have hbuilt : l.Built := (Built.ofFields "ja" "Latn" "JP" "JP").withExtension 'x' "foo"
  have hl : l.language ∉ ["no", "nb", "nn", "zh"] := by decide
  have hmem : japaneseCalendar ∈ l.candidates := by decide
  exact ⟨hbuilt, hl, hmem, candidates_sublist hbuilt hl hmem⟩

end LocaleServices.Locale

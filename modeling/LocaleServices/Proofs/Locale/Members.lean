import LocaleServices.Proofs.Locale.Usual
import LocaleServices.Proofs.Text.Truncations

/-!
  Which locales are in a chain.

  `mem_ordinaryChain` gives the content of an ordinary chain: the script is kept or dropped,
  and the region and a truncation of the variant are kept from the left. From it follow the
  entries that stand for the requested fields themselves in every kind of chain
  (`ofFields_mem_candidates`), and what no entry of a Nynorsk or a Chinese chain can be.
-/

namespace LocaleServices

namespace Locale

/-! ## Ordinary chains -/

theorem mem_regionalCandidates {language script region variant : String} {d : Locale} :
    d ∈ regionalCandidates language script region variant ↔
      (∃ v ∈ Text.truncations '_' variant, d = ofFields language script region v) ∨
        region ≠ "" ∧ d = ofFields language script region "" := by
  unfold regionalCandidates
  rw [List.mem_append, List.mem_map]
  by_cases hr : region = "" <;> simp [hr, eq_comm]

/-- A region and a variant that a chain keeps. -/
def Keeps (region variant r v : String) : Prop :=
  r = "" ∧ v = "" ∨ r = region ∧ (v = "" ∨ v ∈ Text.truncations '_' variant)

theorem keeps_self (region variant : String) : Keeps region variant region variant := by
  by_cases hv : variant = ""
  · exact Or.inr ⟨rfl, Or.inl hv⟩
  · exact Or.inr ⟨rfl, Or.inr (Text.self_mem_truncations '_' hv)⟩

theorem keeps_of_mem_regional {language script region variant : String} {d : Locale}
    (h : d ∈ regionalCandidates language script region variant) :
    ∃ r v, Keeps region variant r v ∧ d = ofFields language script r v := by
  rcases mem_regionalCandidates.mp h with ⟨v, hv, rfl⟩ | ⟨_, rfl⟩
  · exact ⟨region, v, Or.inr ⟨rfl, Or.inr hv⟩, rfl⟩
  · exact ⟨region, "", Or.inr ⟨rfl, Or.inl rfl⟩, rfl⟩

/-- What a chain keeps of region and variant is a regional candidate, unless it is nothing. -/
theorem mem_regional_of_keeps {region variant r v : String} (language script : String)
    (h : Keeps region variant r v) :
    r = "" ∧ v = "" ∨ ofFields language script r v ∈
      regionalCandidates language script region variant := by
  rcases h with h | ⟨rfl, rfl | hv⟩
  · exact Or.inl h
  · by_cases hr : r = ""
    · exact Or.inl ⟨hr, rfl⟩
    · exact Or.inr (mem_regionalCandidates.mpr (Or.inr ⟨hr, rfl⟩))
  · exact Or.inr (mem_regionalCandidates.mpr (Or.inl ⟨v, hv, rfl⟩))

theorem root_mem_ordinaryChain (language script region variant : String) :
    root ∈ ordinaryChain language script region variant := by
  simp [ordinaryChain]

theorem ofLanguage_mem_ordinaryChain (language script region variant : String) :
    ofLanguage language ∈ ordinaryChain language script region variant := by
  by_cases hl : language = ""
  · rw [hl, show ofLanguage "" = root by decide]
    exact root_mem_ordinaryChain "" script region variant
  · simp [ordinaryChain, hl]

/-- The content of an ordinary chain. -/
theorem mem_ordinaryChain {language script region variant : String} {d : Locale} :
    d ∈ ordinaryChain language script region variant ↔
      d = root ∨ ∃ s r v, (s = script ∨ s = "") ∧ Keeps region variant r v ∧
        d = ofFields language s r v := by
  constructor
  · intro h
    simp only [ordinaryChain, scriptedCandidates, restartCandidates, List.mem_append,
      List.mem_singleton] at h
    rcases h with (((h | h) | h) | h) | h
    · obtain ⟨r, v, hk, rfl⟩ := keeps_of_mem_regional h
      exact Or.inr ⟨script, r, v, Or.inl rfl, hk, rfl⟩
    · split at h
      · simp at h
      · exact Or.inr ⟨script, "", "", Or.inl rfl, Or.inl ⟨rfl, rfl⟩, List.mem_singleton.mp h⟩
    · split at h
      · simp at h
      · obtain ⟨r, v, hk, rfl⟩ := keeps_of_mem_regional h
        exact Or.inr ⟨"", r, v, Or.inr rfl, hk, rfl⟩
    · split at h
      · simp at h
      · exact Or.inr ⟨"", "", "", Or.inr rfl, Or.inl ⟨rfl, rfl⟩, List.mem_singleton.mp h⟩
    · exact Or.inl h
  · rintro (rfl | ⟨s, r, v, hs, hk, rfl⟩)
    · exact root_mem_ordinaryChain language script region variant
    · by_cases hscript : s = script
      · subst hscript
        rcases mem_regional_of_keeps language s hk with ⟨rfl, rfl⟩ | hm
        · by_cases he : s = ""
          · subst he
            exact ofLanguage_mem_ordinaryChain language "" region variant
          · simp [ordinaryChain, scriptedCandidates, he]
        · simp [ordinaryChain, scriptedCandidates, hm]
      · obtain rfl : s = "" := hs.resolve_left hscript
        have he : script ≠ "" := fun h => hscript h.symm
        rcases mem_regional_of_keeps language "" hk with ⟨rfl, rfl⟩ | hm
        · exact ofLanguage_mem_ordinaryChain language script region variant
        · simp [ordinaryChain, restartCandidates, he, hm]

theorem ofFields_mem_ordinaryChain {script s : String} (hs : s = script ∨ s = "")
    (language region variant : String) :
    ofFields language s region variant ∈ ordinaryChain language script region variant :=
  mem_ordinaryChain.mpr (Or.inr ⟨s, region, variant, hs, keeps_self region variant, rfl⟩)

/-- The root stands at the end. -/
theorem dropLast_ordinaryChain (language script region variant : String) :
    (ordinaryChain language script region variant).dropLast ++ [root] =
      ordinaryChain language script region variant := by
  unfold ordinaryChain
  rw [List.dropLast_concat]

theorem mem_dropLast_of_mem_ordinaryChain {language script region variant : String} {d : Locale}
    (h : d ∈ ordinaryChain language script region variant) (hd : d.language ≠ "") :
    d ∈ (ordinaryChain language script region variant).dropLast := by
  rw [← dropLast_ordinaryChain, List.mem_append, List.mem_singleton] at h
  exact h.resolve_right fun he => hd (he ▸ rfl)

/-! ## Norwegian chains -/

theorem mem_bokmalChain_of_mem {script region variant : String} {d : Locale}
    (h : d ∈ ordinaryChain "nb" script region variant) : d ∈ bokmalChain script region variant := by
  refine List.mem_flatMap.mpr ⟨d, h, ?_⟩
  unfold withTwin
  split <;> exact List.mem_cons_self

theorem twin_mem_bokmalChain {script region variant : String} {d : Locale}
    (h : d ∈ ordinaryChain "nb" script region variant) (hd : d.language ≠ "") :
    ofFields "no" d.script d.region d.variant ∈ bokmalChain script region variant := by
  refine List.mem_flatMap.mpr ⟨d, h, ?_⟩
  simp [withTwin, hd]

theorem mem_nynorskChain_of_mem {script region variant : String} {d : Locale}
    (h : d ∈ ordinaryChain "nn" script region variant) (hd : d.language ≠ "") :
    d ∈ nynorskChain script region variant :=
  List.mem_append_left _ (mem_dropLast_of_mem_ordinaryChain h hd)

/-- The entries of a Nynorsk chain in the language `no` have no script. -/
theorem script_of_mem_nynorskChain {script region variant : String} {d : Locale}
    (h : d ∈ nynorskChain script region variant) (hd : d.language = "no") : d.script = "" := by
  rcases List.mem_append.mp h with h | h
  · rcases mem_ordinaryChain.mp (List.dropLast_subset _ h) with rfl | ⟨s, r, v, _, _, rfl⟩
    · rfl
    · rw [language_ofFields] at hd
      exact absurd hd (by decide)
  · simp only [List.mem_cons, List.not_mem_nil, or_false] at h
    rcases h with rfl | rfl | rfl | rfl <;> decide

/-! ## Chinese chains -/

/-- A variant is kept together with the region only. -/
theorem region_of_mem_ordinaryChain {language script region variant : String} {d : Locale}
    (h : d ∈ ordinaryChain language script region variant) (hd : d.variant ≠ "") :
    d.region = Text.upper region := by
  rcases mem_ordinaryChain.mp h with rfl | ⟨s, r, v, _, ⟨_, rfl⟩ | ⟨rfl, _⟩, rfl⟩
  · exact absurd rfl hd
  · exact absurd rfl hd
  · rfl

/-- Whether Chinese fills in a region and so passes over a variant without one. -/
def PassesVariant (l : Locale) : Prop :=
  l.language = "zh" ∧ (l.script = "Hans" ∨ l.script = "Hant") ∧ l.region = "" ∧ l.variant ≠ ""

theorem chineseRegion_eq_empty {script : String} (h : ¬ (script = "Hans" ∨ script = "Hant")) :
    chineseRegion script = "" := by
  obtain ⟨h1, h2⟩ := not_or.mp h
  simp [chineseRegion, h1, h2]

theorem ofFields_mem_chineseChain {script region variant s : String} (hs : s = script ∨ s = "")
    (hp : ¬ ((script = "Hans" ∨ script = "Hant") ∧ region = "" ∧ variant ≠ "")) :
    ofFields "zh" s region variant ∈ chineseChain script region variant := by
  unfold chineseChain
  split
  · rename_i h
    exact ofFields_mem_ordinaryChain (Or.inr (hs.elim (fun e => e.trans h.1) id)) _ _ _
  · split
    · rename_i h
      refine mem_ordinaryChain.mpr (Or.inr ⟨s, region, variant, hs, ?_, rfl⟩)
      by_cases hc : script = "Hans" ∨ script = "Hant"
      · have hv : variant = "" := Classical.not_not.mp fun hv => hp ⟨hc, h.2, hv⟩
        exact Or.inl ⟨h.2, hv⟩
      · rw [chineseRegion_eq_empty hc, h.2]
        exact keeps_self "" variant
    · exact ofFields_mem_ordinaryChain hs _ _ _

/-! ## The requested fields -/

theorem root_mem_candidates (l : Locale) : root ∈ l.candidates := by
  have hn : ∀ s r v, root ∈ nynorskChain s r v := by
    intro s r v
    simp [nynorskChain]
  unfold candidates
  split
  · exact hn _ _ _
  · split
    · exact mem_bokmalChain_of_mem (root_mem_ordinaryChain _ _ _ _)
    · split
      · exact hn _ _ _
      · split
        · unfold chineseChain
          split
          · exact root_mem_ordinaryChain _ _ _ _
          · split <;> exact root_mem_ordinaryChain _ _ _ _
        · exact root_mem_ordinaryChain _ _ _ _

/-- The requested fields, with or without the script, are in the chain. The exceptions are
    the old spelling of Nynorsk with a script and a variant that Chinese passes over. -/
theorem ofFields_mem_candidates {l : Locale} {s : String} (hs : s = l.script ∨ s = "")
    (hn : l.legacy? = some .nynorsk → s = "") (hp : ¬ l.PassesVariant) :
    ofFields l.language s l.region l.variant ∈ l.candidates := by
  unfold candidates
  split
  · rename_i h
    obtain ⟨hl, hr, hv⟩ := Legacy.ofFields?_eq_some_iff.mp h
    rw [hn h, ← hl, ← hr, ← hv]
    simp [nynorskChain, unscripted, Legacy.language, Legacy.region, Legacy.variant]
  · split
    · rename_i h
      have hnb := ofFields_mem_ordinaryChain hs "nb" l.region l.variant
      rcases h with hl | hl
      · have ht := twin_mem_bokmalChain hnb (by rw [language_ofFields]; decide)
        rw [script_ofFields, region_ofFields, variant_ofFields, ofFields_titled_upper] at ht
        rw [hl]
        exact ht
      · rw [hl]
        exact mem_bokmalChain_of_mem hnb
    · split
      · rename_i hl
        rw [hl]
        exact mem_nynorskChain_of_mem (ofFields_mem_ordinaryChain hs _ _ _)
          (by rw [language_ofFields]; decide)
      · split
        · rename_i hl
          rw [hl]
          exact ofFields_mem_chineseChain hs fun h => hp ⟨hl, h⟩
        · exact ofFields_mem_ordinaryChain hs _ _ _

/-- The modern spelling of a legacy form is in its chain. -/
theorem modern_mem_candidates {l : Locale} {form : Legacy} (h : l.legacy? = some form) :
    ofFields form.modernLanguage l.script l.region "" ∈ l.candidates := by
  obtain ⟨hl, _, _⟩ := Legacy.ofFields?_eq_some_iff.mp h
  unfold candidates
  cases form with
  | nynorsk =>
    rw [if_pos h]
    exact mem_nynorskChain_of_mem (ofFields_mem_ordinaryChain (Or.inl rfl) _ _ _)
      (by rw [language_ofFields]; decide)
  | japanese | thai =>
    rw [if_neg (by rw [h]; decide), ← hl]
    exact mem_ordinaryChain.mpr
      (Or.inr ⟨l.script, l.region, "", Or.inl rfl, Or.inr ⟨rfl, Or.inl rfl⟩, rfl⟩)

end Locale

end LocaleServices

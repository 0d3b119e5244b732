import LocaleServices.Proofs.Locale.Narrowing

/-!
  Where a chain ends, and what it repeats.

  The root stands at the end of every chain. A variant that opens with a separator has the
  empty text among its truncations, and then an entry with the region alone comes up twice;
  otherwise the entries are distinct (`nodup_ordinaryChain_iff`). That entry is the root when
  language and region are missing (`count_root_ordinaryChain`). Main statement: the same holds
  of the candidates of every locale (`candidates_end_and_repeats`).
-/

namespace LocaleServices

namespace Text

/-! ## The empty truncation -/

/-- Whether a text opens with a separator. -/
def OpensWith (sep : Char) (s : String) : Prop := s.toList.head? = some sep

instance (sep : Char) (s : String) : Decidable (OpensWith sep s) :=
  inferInstanceAs (Decidable (_ = _))

theorem empty_mem_truncations_iff {sep : Char} {s : String} :
    "" ∈ truncations sep s ↔ OpensWith sep s := by
  unfold OpensWith
  by_cases hs : s = ""
  · simp [hs]
  have hcut : [sep] <+: s.toList ↔ s.toList.head? = some sep := by
    cases s.toList with
    | nil => simp
    | cons c r => simp [eq_comm]
  rw [mem_truncations_iff, String.toList_empty, List.nil_append, hcut]
  simp [hs, Ne.symm hs]

theorem nodup_truncations (sep : Char) (s : String) : (truncations sep s).Nodup :=
  (pairwise_truncations sep s).imp fun h => h.2.symm

end Text

namespace Locale

/-! ## Ordinary chains -/

section Ordinary

variable {language script region variant : String}

/-- Whether a locale has neither script, region nor variant. -/
def IsBroad (d : Locale) : Prop := d.script = "" ∧ d.region = "" ∧ d.variant = ""

theorem ofFields_eq_root_iff :
    ofFields language script region variant = root ↔
      language = "" ∧ script = "" ∧ region = "" ∧ variant = "" := by
  constructor
  · intro h
    exact ⟨Text.lower_eq_empty_iff.mp (congrArg Locale.language h),
      Text.titled_eq_empty_iff.mp (congrArg Locale.script h),
      Text.upper_eq_empty_iff.mp (congrArg Locale.region h), congrArg Locale.variant h⟩
  · rintro ⟨rfl, rfl, rfl, rfl⟩
    exact root_eq_ofFields.symm

theorem nodup_truncated (language script region variant : String) :
    ((Text.truncations '_' variant).map (ofFields language script region)).Nodup := by
  refine List.pairwise_map.mpr ((Text.nodup_truncations '_' variant).imp fun hne he => hne ?_)
  exact congrArg Locale.variant he

theorem not_isBroad_of_mem_regional (hv : ¬ Text.OpensWith '_' variant) {d : Locale}
    (h : d ∈ regionalCandidates language script region variant) : ¬ d.IsBroad := by
  rintro ⟨_, hr, hd⟩
  rcases mem_regionalCandidates.mp h with ⟨v, hm, rfl⟩ | ⟨hne, rfl⟩
  · exact hv (Text.empty_mem_truncations_iff.mp (hd ▸ hm))
  · exact hne (Text.upper_eq_empty_iff.mp hr)

theorem nodup_regionalCandidates (language script region : String)
    (hv : ¬ Text.OpensWith '_' variant) :
    (regionalCandidates language script region variant).Nodup := by
  refine List.nodup_append.mpr ⟨nodup_truncated _ _ _ _, by split <;> simp, ?_⟩
  intro a ha b hb he
  obtain ⟨v, hm, rfl⟩ := List.mem_map.mp ha
  split at hb
  · simp at hb
  · have hempty : v = "" := congrArg Locale.variant (he.trans (List.mem_singleton.mp hb))
    exact hv (Text.empty_mem_truncations_iff.mp (hempty ▸ hm))

/-- The entries before the language alone, when nothing is cut down to the empty text. -/
theorem nodup_entries (language script region : String) (hv : ¬ Text.OpensWith '_' variant) :
    (scriptedCandidates language script region variant ++
      restartCandidates language script region variant).Nodup ∧
    ∀ d ∈ scriptedCandidates language script region variant ++
      restartCandidates language script region variant, ¬ d.IsBroad := by
  have hscripted : (scriptedCandidates language script region variant).Nodup := by
    refine List.nodup_append.mpr
      ⟨nodup_regionalCandidates language script region hv, by split <;> simp, ?_⟩
    intro a ha b hb he
    split at hb
    · simp at hb
    · rcases mem_regionalCandidates.mp ha with ⟨v, hm, rfl⟩ | ⟨hne, rfl⟩
      · have hempty : v = "" := congrArg Locale.variant (he.trans (List.mem_singleton.mp hb))
        exact hv (Text.empty_mem_truncations_iff.mp (hempty ▸ hm))
      · have hregion : Text.upper region = Text.upper "" :=
          congrArg Locale.region (he.trans (List.mem_singleton.mp hb))
        exact hne (Text.upper_eq_empty_iff.mp hregion)
  have hrestart : (restartCandidates language script region variant).Nodup := by
    unfold restartCandidates
    split
    · exact List.nodup_nil
    · exact nodup_regionalCandidates language "" region hv
  constructor
  · refine List.nodup_append.mpr ⟨hscripted, hrestart, fun a ha b hb he => ?_⟩
    obtain ⟨hne, _, hsb⟩ := fields_of_mem_restart hb
    rw [← he, (fields_of_mem_scripted ha).2] at hsb
    exact hne (Text.titled_eq_empty_iff.mp hsb)
  · intro d hd
    rcases List.mem_append.mp hd with hd | hd
    · rcases List.mem_append.mp hd with hd | hd
      · exact not_isBroad_of_mem_regional hv hd
      · split at hd
        · simp at hd
        · rename_i hne
          rw [List.mem_singleton.mp hd]
          exact fun h => hne (Text.titled_eq_empty_iff.mp h.1)
    · unfold restartCandidates at hd
      split at hd
      · simp at hd
      · exact not_isBroad_of_mem_regional hv hd

theorem nodup_ordinaryChain (language script region : String)
    (hv : ¬ Text.OpensWith '_' variant) :
    (ordinaryChain language script region variant).Nodup := by
  obtain ⟨hnodup, hnarrow⟩ := nodup_entries language script region hv
  have hlanguage : language ≠ "" → ofLanguage language ≠ root := fun hne he =>
    hne (ofFields_eq_root_iff.mp he).1
  unfold ordinaryChain
  rw [List.append_assoc]
  refine List.nodup_append.mpr ⟨hnodup, ?_, fun a ha b hb he => hnarrow a ha (he ▸ ?_)⟩
  · split
    · simp
    · rename_i hne
      simp [hlanguage hne]
  · split at hb
    · rw [List.mem_singleton.mp hb]
      exact ⟨rfl, rfl, rfl⟩
    · rcases List.mem_cons.mp hb with rfl | hb
      · exact ⟨rfl, rfl, rfl⟩
      · rw [List.mem_singleton.mp hb]
        exact ⟨rfl, rfl, rfl⟩

/-- What is left after cutting a variant down to the empty text comes up again. -/
theorem not_nodup_ordinaryChain (language script region : String)
    (hv : Text.OpensWith '_' variant) :
    ¬ (ordinaryChain language script region variant).Nodup := by
  intro hnodup
  have hfirst : ofFields language script region "" ∈
      (Text.truncations '_' variant).map (ofFields language script region) :=
    List.mem_map.mpr ⟨"", Text.empty_mem_truncations_iff.mpr hv, rfl⟩
  simp only [ordinaryChain, scriptedCandidates, regionalCandidates, List.append_assoc] at hnodup
  refine (List.nodup_append.mp hnodup).2.2 _ hfirst _ ?_ rfl
  by_cases hr : region = ""
  · by_cases hs : script = ""
    · by_cases hl : language = ""
      · simp [hr, hs, hl, root_eq_ofFields]
      · simp [hr, hs, hl, ofLanguage, unscripted]
    · simp [hr, hs]
  · simp [hr]

theorem nodup_ordinaryChain_iff :
    (ordinaryChain language script region variant).Nodup ↔ ¬ Text.OpensWith '_' variant :=
  ⟨fun h hv => not_nodup_ordinaryChain language script region hv h,
    nodup_ordinaryChain language script region⟩

theorem count_root_regional (language script region variant : String) :
    (regionalCandidates language script region variant).count root =
      if language = "" ∧ script = "" ∧ region = "" ∧ Text.OpensWith '_' variant then 1 else 0 := by
  by_cases hr : region = ""
  · have hmem : root ∈ (Text.truncations '_' variant).map (ofFields language script region) ↔
        language = "" ∧ script = "" ∧ region = "" ∧ Text.OpensWith '_' variant := by
      rw [List.mem_map, ← Text.empty_mem_truncations_iff]
      constructor
      · rintro ⟨v, hv, he⟩
        obtain ⟨hl, hs, hr, rfl⟩ := ofFields_eq_root_iff.mp he
        exact ⟨hl, hs, hr, hv⟩
      · rintro ⟨hl, hs, hr, hv⟩
        exact ⟨"", hv, ofFields_eq_root_iff.mpr ⟨hl, hs, hr, rfl⟩⟩
    rw [regionalCandidates, if_pos hr, List.append_nil, (nodup_truncated _ _ _ _).count]
    simp only [hmem]
  · rw [if_neg fun h => hr h.2.2.1, List.count_eq_zero]
    intro h
    rcases mem_regionalCandidates.mp h with ⟨v, _, he⟩ | ⟨_, he⟩
    · exact hr (ofFields_eq_root_iff.mp he.symm).2.2.1
    · exact hr (ofFields_eq_root_iff.mp he.symm).2.2.1

/-- The root comes up before the end when only a variant is given that is cut down to the
    empty text. -/
theorem count_root_ordinaryChain (language script region variant : String) :
    (ordinaryChain language script region variant).count root =
      if language = "" ∧ region = "" ∧ Text.OpensWith '_' variant then 2 else 1 := by
  have hscript : (if script = "" then [] else [ofFields language script "" ""]).count root = 0 := by
    split
    · rfl
    · rename_i hs
      rw [List.count_eq_zero, List.mem_singleton]
      exact fun he => hs (ofFields_eq_root_iff.mp he.symm).2.1
  have hlanguage : (if language = "" then [] else [ofLanguage language]).count root = 0 := by
    split
    · rfl
    · rename_i hl
      rw [List.count_eq_zero, List.mem_singleton]
      exact fun he => hl (ofFields_eq_root_iff.mp he.symm).1
  have hrestart : (restartCandidates language script region variant).count root =
      if script = "" then 0
      else if language = "" ∧ region = "" ∧ Text.OpensWith '_' variant then 1 else 0 := by
    unfold restartCandidates
    split
    · rfl
    · rw [count_root_regional]
      simp only [true_and]
  have hroot : [root].count root = 1 := List.count_singleton_self
  rw [ordinaryChain, scriptedCandidates, List.count_append, List.count_append, List.count_append,
    List.count_append, count_root_regional, hscript, hrestart, hlanguage, hroot]
  by_cases hs : script = ""
  · by_cases h : language = "" ∧ region = "" ∧ Text.OpensWith '_' variant <;> simp [hs, h]
  · by_cases h : language = "" ∧ region = "" ∧ Text.OpensWith '_' variant <;> simp [hs, h]

end Ordinary

/-! ## Norwegian chains -/

section Norwegian

variable {script region variant : String}

theorem root_notMem_dropLast {language : String} (hl : language ≠ "") :
    root ∉ (ordinaryChain language script region variant).dropLast := by
  intro h
  exact hl (Text.lower_eq_empty_iff.mp (language_of_mem_dropLast h).symm)

theorem sublist_flatMap_withTwin (ds : List Locale) : ds.Sublist (ds.flatMap withTwin) := by
  induction ds with
  | nil => exact List.nil_sublist _
  | cons d ds ih =>
    rw [List.flatMap_cons]
    have hfirst : [d].Sublist d.withTwin := by
      rw [List.singleton_sublist]
      unfold withTwin
      split <;> exact List.mem_cons_self
    exact hfirst.append ih

theorem IsBokmal.eq_of_twin_eq {a b : Locale} (ha : a.IsBokmal) (hb : b.IsBokmal)
    (h : a.twin = b.twin) : a = b := by
  have hs := congrArg Locale.script h
  have hr := congrArg Locale.region h
  have hv : a.twin.variant = b.twin.variant := congrArg Locale.variant h
  rw [ha.1.isUsual.twin_eq.1, hb.1.isUsual.twin_eq.1] at hs
  rw [ha.1.isUsual.twin_eq.2, hb.1.isUsual.twin_eq.2] at hr
  rw [← ha.1.rebuilt_eq, ← hb.1.rebuilt_eq]
  exact rebuilt_congr (bare_eq_iff.mpr ⟨ha.2.trans hb.2.symm, hs, hr, hv⟩)

theorem nodup_bokmalChain_iff :
    (bokmalChain script region variant).Nodup ↔ ¬ Text.OpensWith '_' variant := by
  have hordinary : (ordinaryChain "nb" script region variant).Nodup ↔
      ¬ Text.OpensWith '_' variant := nodup_ordinaryChain_iff
  rw [← hordinary]
  constructor
  · exact fun h => h.sublist (sublist_flatMap_withTwin _)
  · intro h
    have hne : ∀ {a b : Locale}, a.language ≠ b.language → a ≠ b := fun hl he =>
      hl (congrArg Locale.language he)
    refine pairwise_bokmalChain script region variant (fun ha => hne ha)
      (fun ha => hne (ha.language_ne_twin _)) (fun ha hb hab => ?_) h
    exact ⟨hne (ha.language_ne_twin _), hne (hb.language_ne_twin _).symm,
      fun he => hab (ha.eq_of_twin_eq hb he)⟩

theorem count_root_bokmalChain (script region variant : String) :
    (bokmalChain script region variant).count root = 1 := by
  rw [bokmalChain_eq, List.count_append, List.count_singleton_self, List.count_eq_zero.mpr]
  intro h
  obtain ⟨d, hd, hmem⟩ := List.mem_flatMap.mp h
  have hd := isBokmal_of_mem_dropLast script region variant hd
  rcases (mem_withTwin hd.language_ne).mp hmem with he | he
  · exact hd.language_ne (he ▸ rfl)
  · have hl : "" = "no" := congrArg Locale.language he
    exact absurd hl (by decide)

theorem nodup_nynorskChain_iff :
    (nynorskChain script region variant).Nodup ↔ ¬ Text.OpensWith '_' variant := by
  have hordinary : (ordinaryChain "nn" script region variant).Nodup ↔
      ¬ Text.OpensWith '_' variant := nodup_ordinaryChain_iff
  have hdrop : (ordinaryChain "nn" script region variant).dropLast.Nodup ↔
      ¬ Text.OpensWith '_' variant := by
    rw [← hordinary, ← dropLast_ordinaryChain "nn" script region variant, List.dropLast_concat,
      List.nodup_append]
    refine ⟨fun h => ⟨h, by simp, fun a ha b hb he => ?_⟩, And.left⟩
    exact root_notMem_dropLast (by decide) (List.mem_singleton.mp hb ▸ he ▸ ha)
  rw [← hdrop, nynorskChain, List.nodup_append]
  refine ⟨And.left, fun h => ⟨h, by decide, fun a ha b hb he => ?_⟩⟩
  have hl : a.language = "nn" := language_of_mem_dropLast ha
  have hne : ∀ d ∈ [unscripted "no" "NO" "NY", unscripted "no" "NO" "", ofLanguage "no", root],
      d.language ≠ "nn" := by
    decide
  exact hne b hb (he ▸ hl)

theorem count_root_nynorskChain (script region variant : String) :
    (nynorskChain script region variant).count root = 1 := by
  have htail : [unscripted "no" "NO" "NY", unscripted "no" "NO" "", ofLanguage "no",
      root].count root = 1 := by
    decide
  rw [nynorskChain, List.count_append, htail,
    List.count_eq_zero.mpr (root_notMem_dropLast (by decide))]

end Norwegian

/-! ## Candidates -/

theorem getLast?_nynorskChain (script region variant : String) :
    (nynorskChain script region variant).getLast? = some root := by
  rw [nynorskChain, List.getLast?_append]
  rfl

theorem getLast?_candidates (l : Locale) : l.candidates.getLast? = some root := by
  have hcase := chainCase l
  generalize l.candidates = chain at hcase
  cases hcase with
  | oldNynorsk => exact getLast?_nynorskChain _ _ _
  | bokmal =>
    rw [bokmalChain_eq]
    exact List.getLast?_concat
  | nynorsk => exact getLast?_nynorskChain _ _ _
  | chinese => exact List.getLast?_concat
  | ordinary => exact List.getLast?_concat

theorem count_root_candidates (l : Locale) :
    l.candidates.count root =
      if l.language = "" ∧ l.region = "" ∧ Text.OpensWith '_' l.variant then 2 else 1 := by
  have hgiven : ∀ {language : String}, l.language = language → language ≠ "" →
      1 = if l.language = "" ∧ l.region = "" ∧ Text.OpensWith '_' l.variant then 2 else 1 :=
    fun hl hne => (if_neg fun h => hne (hl.symm.trans h.1)).symm
  have hcase := chainCase l
  generalize l.candidates = chain at hcase
  cases hcase with
  | oldNynorsk h =>
    rw [count_root_nynorskChain]
    exact hgiven (Legacy.ofFields?_eq_some_iff.mp h).1.symm (by decide)
  | bokmal h =>
    rw [count_root_bokmalChain]
    exact h.elim (fun hl => hgiven hl (by decide)) fun hl => hgiven hl (by decide)
  | nynorsk h =>
    rw [count_root_nynorskChain]
    exact hgiven h (by decide)
  | chinese h =>
    rw [count_root_ordinaryChain]
    exact (if_neg fun he => absurd he.1 (by decide)).trans (hgiven h (by decide))
  | ordinary => exact count_root_ordinaryChain _ _ _ _

theorem nodup_candidates_iff (l : Locale) :
    l.candidates.Nodup ↔ ¬ Text.OpensWith '_' l.variant := by
  have hcase := chainCase l
  generalize l.candidates = chain at hcase
  cases hcase with
  | oldNynorsk h =>
    -- The variant of the old spelling is dropped; neither it nor the empty text opens so.
    have hv : ¬ Text.OpensWith '_' l.variant := by
      rw [← (Legacy.ofFields?_eq_some_iff.mp h).2.2]
      decide
    rw [nodup_nynorskChain_iff]
    exact ⟨fun _ => hv, fun _ => by decide⟩
  | bokmal => exact nodup_bokmalChain_iff
  | nynorsk => exact nodup_nynorskChain_iff
  | chinese => exact nodup_ordinaryChain_iff
  | ordinary => exact nodup_ordinaryChain_iff

/-- A chain ends with the root, which comes up once unless language and region are missing
    and the variant opens with a separator; the candidates are distinct unless the variant
    opens so. -/
theorem candidates_end_and_repeats (l : Locale) :
    l.candidates.getLast? = some root ∧
      l.candidates.count root =
        (if l.language = "" ∧ l.region = "" ∧ Text.OpensWith '_' l.variant then 2 else 1) ∧
      (l.candidates.Nodup ↔ ¬ Text.OpensWith '_' l.variant) :=
  ⟨getLast?_candidates l, count_root_candidates l, nodup_candidates_iff l⟩

/-- With only a variant that opens with a separator, the root comes up twice. -/
theorem candidates_repeat_root :
    let l := unscripted "" "" "_A"
    l.candidates = [l, root, root] ∧
      ¬ (l.candidates.getLast? = some root ∧ l.candidates.count root = 1 ∧
        l.candidates.Nodup) := by
  decide

end Locale

end LocaleServices

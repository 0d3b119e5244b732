import LocaleServices.Proofs.Locale.Members

/-!
  Chains get less specific.

  `Generalises a b` says that `a` asks for nothing that `b` does not ask for, and `MayPrecede`
  that a locale says no less than the one after it. In an ordinary chain each entry
  generalises those before it, up to the second start without the script, which the entries
  with a script cannot generalise (`pairwise_ordinaryChain`). Norwegian adds entries in
  another language, which are not comparable. Main statement: no candidate is a proper
  generalisation of a later one, and without a script the number of fields that are given
  never goes up (`candidates_never_more_specific`).
-/

namespace LocaleServices

namespace Locale

/-! ## Generality -/

/-- Whether a locale asks for nothing that another one does not ask for. -/
structure Generalises (a b : Locale) : Prop where
  language : a.language = "" ∨ a.language = b.language
  script : a.script = "" ∨ a.script = b.script
  region : a.region = "" ∨ a.region = b.region
  variant : a.variant = "" ∨ a.variant.toList <+: b.variant.toList

instance (a b : Locale) : Decidable (a.Generalises b) :=
  decidable_of_iff
    ((a.language = "" ∨ a.language = b.language) ∧ (a.script = "" ∨ a.script = b.script) ∧
      (a.region = "" ∨ a.region = b.region) ∧
      (a.variant = "" ∨ a.variant.toList <+: b.variant.toList))
    ⟨fun h => ⟨h.1, h.2.1, h.2.2.1, h.2.2.2⟩,
      fun h => ⟨h.language, h.script, h.region, h.variant⟩⟩

/-- Whether a locale generalises the one after it only by saying the same. -/
def MayPrecede (a b : Locale) : Prop := a.Generalises b → a.bare = b.bare

/-- One for a field that is given. -/
def given (field : String) : Nat := if field = "" then 0 else 1

/-- How many base fields are given. -/
def specificity (l : Locale) : Nat :=
  given l.language + given l.script + given l.region + given l.variant

section Generality

variable {a b : Locale}

theorem root_generalises (b : Locale) : root.Generalises b :=
  ⟨Or.inl rfl, Or.inl rfl, Or.inl rfl, Or.inl rfl⟩

theorem eq_of_empty_or_eq {s t : String} (h : s = "" ∨ s = t) (h' : t = "" ∨ t = s) : s = t := by
  rcases h with hs | hs
  · exact h'.elim (fun ht => hs.trans ht.symm) Eq.symm
  · exact hs

/-- Locales that generalise each other say the same. -/
theorem Generalises.antisymm (h : a.Generalises b) (h' : b.Generalises a) : a.bare = b.bare := by
  have hvariant : a.variant = b.variant := by
    rcases h.variant with ha | hab
    · rcases h'.variant with hb | hba
      · exact ha.trans hb.symm
      · rw [ha, String.toList_empty, List.prefix_nil, String.toList_eq_nil_iff] at hba
        exact ha.trans hba.symm
    · rcases h'.variant with hb | hba
      · rw [hb, String.toList_empty, List.prefix_nil, String.toList_eq_nil_iff] at hab
        exact hab.trans hb.symm
      · exact String.toList_inj.mp (hab.eq_of_length_le hba.length_le)
  exact bare_eq_iff.mpr ⟨eq_of_empty_or_eq h.language h'.language,
    eq_of_empty_or_eq h.script h'.script, eq_of_empty_or_eq h.region h'.region, hvariant⟩

theorem Generalises.mayPrecede (h : b.Generalises a) : a.MayPrecede b := fun h' => h'.antisymm h

theorem mayPrecede_of_script (ha : a.script ≠ "") (hb : b.script = "") : a.MayPrecede b :=
  fun h => h.script.elim (fun he => absurd he ha) fun he => absurd (he.trans hb) ha

theorem mayPrecede_of_language (ha : a.language ≠ "") (hab : a.language ≠ b.language) :
    a.MayPrecede b :=
  fun h => h.language.elim (fun he => absurd he ha) fun he => absurd he hab

theorem given_le_given {s t : String} (h : s = "" ∨ s = t) : given s ≤ given t := by
  rcases h with rfl | rfl
  · exact Nat.zero_le _
  · exact Nat.le_refl _

theorem given_le_given_of_variant {s t : String} (h : s = "" ∨ s.toList <+: t.toList) :
    given s ≤ given t := by
  by_cases ht : t = ""
  · rw [ht, String.toList_empty, List.prefix_nil, String.toList_eq_nil_iff, or_self] at h
    exact Nat.le_of_eq (congrArg given (h.trans ht.symm))
  · unfold given
    rw [if_neg ht]
    split <;> omega

theorem Generalises.specificity_le (h : a.Generalises b) : a.specificity ≤ b.specificity :=
  Nat.add_le_add (Nat.add_le_add (Nat.add_le_add (given_le_given h.language)
    (given_le_given h.script)) (given_le_given h.region)) (given_le_given_of_variant h.variant)

end Generality

/-! ## Ordinary chains -/

section Ordinary

variable (language script region variant : String)

theorem ofFields_generalises {s r v v' : String} (language : String)
    (hv : v = "" ∨ v.toList <+: v'.toList) :
    (ofFields language s r v).Generalises (ofFields language s r v') :=
  ⟨Or.inr rfl, Or.inr rfl, Or.inr rfl, hv⟩

/-- The given script alone, or none, generalises every entry with that script. -/
theorem ofFields_generalises_of_script {d : Locale} {s : String}
    (hl : d.language = Text.lower language) (hs : d.script = Text.titled s) :
    (ofFields language s "" "").Generalises d :=
  ⟨Or.inr hl.symm, Or.inr hs.symm, Or.inl rfl, Or.inl rfl⟩

theorem pairwise_regionalCandidates :
    (regionalCandidates language script region variant).Pairwise fun a b => b.Generalises a := by
  refine List.pairwise_append.mpr ⟨?_, ?_, fun a ha b hb => ?_⟩
  · rw [List.pairwise_map]
    exact (Text.pairwise_truncations '_' variant).imp fun h =>
      ofFields_generalises language (Or.inr h.1)
  · split <;> simp
  · obtain ⟨v, _, rfl⟩ := List.mem_map.mp ha
    split at hb
    · simp at hb
    · rw [List.mem_singleton.mp hb]
      exact ofFields_generalises language (Or.inl rfl)

variable {language script region variant}

theorem fields_of_mem_regional {d : Locale}
    (h : d ∈ regionalCandidates language script region variant) :
    d.language = Text.lower language ∧ d.script = Text.titled script := by
  obtain ⟨r, v, _, rfl⟩ := keeps_of_mem_regional h
  exact ⟨rfl, rfl⟩

theorem fields_of_mem_scripted {d : Locale}
    (h : d ∈ scriptedCandidates language script region variant) :
    d.language = Text.lower language ∧ d.script = Text.titled script := by
  rcases List.mem_append.mp h with h | h
  · exact fields_of_mem_regional h
  · split at h
    · simp at h
    · rw [List.mem_singleton.mp h]
      exact ⟨rfl, rfl⟩

theorem fields_of_mem_restart {d : Locale}
    (h : d ∈ restartCandidates language script region variant) :
    script ≠ "" ∧ d.language = Text.lower language ∧ d.script = "" := by
  unfold restartCandidates at h
  split at h
  · simp at h
  · rename_i hs
    exact ⟨hs, fields_of_mem_regional h⟩

variable (language script region variant)

theorem pairwise_scriptedCandidates :
    (scriptedCandidates language script region variant).Pairwise fun a b => b.Generalises a := by
  refine List.pairwise_append.mpr
    ⟨pairwise_regionalCandidates language script region variant, ?_, fun a ha b hb => ?_⟩
  · split <;> simp
  · obtain ⟨hl, hs⟩ := fields_of_mem_regional ha
    split at hb
    · simp at hb
    · rw [List.mem_singleton.mp hb]
      exact ofFields_generalises_of_script language hl hs

theorem pairwise_restartCandidates :
    (restartCandidates language script region variant).Pairwise fun a b => b.Generalises a := by
  unfold restartCandidates
  split
  · exact List.Pairwise.nil
  · exact pairwise_regionalCandidates language "" region variant

variable {language script region variant}

theorem language_of_mem_entries {d : Locale}
    (h : d ∈ scriptedCandidates language script region variant ++
      restartCandidates language script region variant) : d.language = Text.lower language := by
  rcases List.mem_append.mp h with h | h
  · exact (fields_of_mem_scripted h).1
  · exact (fields_of_mem_restart h).2.1

/-- Every entry but the root has the given language. -/
theorem language_of_mem_dropLast {d : Locale}
    (h : d ∈ (ordinaryChain language script region variant).dropLast) :
    d.language = Text.lower language := by
  unfold ordinaryChain at h
  rw [List.dropLast_concat] at h
  rcases List.mem_append.mp h with h | h
  · exact language_of_mem_entries h
  · split at h
    · simp at h
    · rw [List.mem_singleton.mp h]
      rfl

variable (language script region variant)

/-- Each entry generalises those before it, or is one of the second start without the script
    while the other one has a script. -/
theorem pairwise_ordinaryChain {R : Locale → Locale → Prop}
    (hgen : ∀ {a b : Locale}, b.Generalises a → R a b)
    (hrestart : script ≠ "" → ∀ {a b : Locale}, a.script ≠ "" → b.script = "" → R a b) :
    (ordinaryChain language script region variant).Pairwise R := by
  have hentries : (scriptedCandidates language script region variant ++
      restartCandidates language script region variant).Pairwise R := by
    refine List.pairwise_append.mpr
      ⟨(pairwise_scriptedCandidates language script region variant).imp hgen,
        (pairwise_restartCandidates language script region variant).imp hgen,
        fun a ha b hb => ?_⟩
    obtain ⟨hne, _, hsb⟩ := fields_of_mem_restart hb
    refine hrestart hne ?_ hsb
    rw [(fields_of_mem_scripted ha).2]
    exact mt Text.titled_eq_empty_iff.mp hne
  have hbody : (scriptedCandidates language script region variant ++
      restartCandidates language script region variant ++
      (if language = "" then [] else [ofLanguage language])).Pairwise R := by
    refine List.pairwise_append.mpr ⟨hentries, by split <;> simp, fun a ha b hb => hgen ?_⟩
    have hl := language_of_mem_entries ha
    split at hb
    · simp at hb
    · rw [List.mem_singleton.mp hb]
      exact ⟨Or.inr hl.symm, Or.inl rfl, Or.inl rfl, Or.inl rfl⟩
  refine List.pairwise_append.mpr ⟨hbody, by simp, fun a _ b hb => hgen ?_⟩
  rw [List.mem_singleton.mp hb]
  exact root_generalises a

theorem ordinaryChain_pairwise_mayPrecede :
    (ordinaryChain language script region variant).Pairwise MayPrecede :=
  pairwise_ordinaryChain language script region variant Generalises.mayPrecede
    fun _ => mayPrecede_of_script

/-- Without a script there is no second start. -/
theorem ordinaryChain_pairwise_specificity :
    (ordinaryChain language "" region variant).Pairwise fun a b =>
      b.specificity ≤ a.specificity :=
  pairwise_ordinaryChain language "" region variant Generalises.specificity_le
    fun h => absurd rfl h

end Ordinary

/-! ## Norwegian chains -/

section Norwegian

variable {a b x : Locale} (script region variant : String)

/-- The entry in the language `no` that follows an entry in Bokmål. -/
def twin (d : Locale) : Locale := ofFields "no" d.script d.region d.variant

theorem IsUsual.twin_eq (h : a.IsUsual) :
    a.twin.script = a.script ∧ a.twin.region = a.region := ⟨h.script, h.region⟩

theorem mem_withTwin (ha : a.language ≠ "") : x ∈ a.withTwin ↔ x = a ∨ x = a.twin := by
  simp [withTwin, ha, twin]

theorem specificity_twin (h : a.IsUsual) (hl : a.language ≠ "") :
    a.twin.specificity = a.specificity := by
  have hlanguage : given a.twin.language = given a.language :=
    (if_neg (show Text.lower "no" ≠ "" by decide)).trans (if_neg hl).symm
  rw [specificity, hlanguage, h.twin_eq.1, h.twin_eq.2]
  rfl

/-- Twins say more or less as their entries do. -/
theorem mayPrecede_twin (ha : a.IsUsual) (hb : b.IsUsual) (hl : a.language = b.language)
    (h : a.MayPrecede b) : a.twin.MayPrecede b.twin := by
  intro hg
  have hscript := hg.script
  have hregion := hg.region
  rw [ha.twin_eq.1, hb.twin_eq.1] at hscript
  rw [ha.twin_eq.2, hb.twin_eq.2] at hregion
  obtain ⟨_, hs, hr, hv⟩ := bare_eq_iff.mp (h ⟨Or.inr hl, hscript, hregion, hg.variant⟩)
  rw [twin, twin, hs, hr, hv]

/-- The entries in Bokmål, before twins are added and without the root. -/
theorem bokmalChain_eq :
    bokmalChain script region variant =
      (ordinaryChain "nb" script region variant).dropLast.flatMap withTwin ++ [root] := by
  have h := congrArg (List.flatMap withTwin) (dropLast_ordinaryChain "nb" script region variant)
  rw [List.flatMap_append] at h
  exact h.symm

theorem isMade_of_mem_dropLast {language : String} {d : Locale}
    (h : d ∈ (ordinaryChain language script region variant).dropLast) : d.IsMade :=
  isMade_of_mem_ordinaryChain (List.dropLast_subset _ h)

theorem language_twin (a : Locale) : a.twin.language = "no" := rfl

/-- An entry in Bokmål, made from fields. -/
def IsBokmal (d : Locale) : Prop := d.IsMade ∧ d.language = "nb"

theorem IsBokmal.language_ne (h : a.IsBokmal) : a.language ≠ "" := by
  rw [h.2]
  decide

theorem IsBokmal.language_ne_twin (h : a.IsBokmal) (b : Locale) :
    a.language ≠ b.twin.language := by
  rw [h.2, language_twin]
  decide

theorem isBokmal_of_mem_dropLast {d : Locale}
    (h : d ∈ (ordinaryChain "nb" script region variant).dropLast) : d.IsBokmal :=
  ⟨isMade_of_mem_dropLast script region variant h, language_of_mem_dropLast h⟩

/-- A relation that holds along the entries in Bokmål holds along the chain with the twins. -/
theorem pairwise_bokmalChain {R : Locale → Locale → Prop}
    (hroot : ∀ {a : Locale}, a.language ≠ "" → R a root)
    (hsame : ∀ {a : Locale}, a.IsBokmal → R a a.twin)
    (hpair : ∀ {a b : Locale}, a.IsBokmal → b.IsBokmal →
      R a b → R a b.twin ∧ R a.twin b ∧ R a.twin b.twin)
    (h : (ordinaryChain "nb" script region variant).Pairwise R) :
    (bokmalChain script region variant).Pairwise R := by
  rw [bokmalChain_eq]
  refine List.pairwise_append.mpr
    ⟨List.pairwise_flatMap.mpr ⟨fun d hd => ?_, ?_⟩, by simp, fun a ha b hb => ?_⟩
  · have hd := isBokmal_of_mem_dropLast script region variant hd
    unfold withTwin
    rw [if_neg hd.language_ne]
    exact List.pairwise_cons.mpr ⟨fun y hy => List.mem_singleton.mp hy ▸ hsame hd, by simp⟩
  · refine (h.sublist (List.dropLast_sublist _)).imp_of_mem fun {a b} ha hb hab x hx y hy => ?_
    have ha := isBokmal_of_mem_dropLast script region variant ha
    have hb := isBokmal_of_mem_dropLast script region variant hb
    obtain ⟨hab', hba', hab''⟩ := hpair ha hb hab
    rcases (mem_withTwin ha.language_ne).mp hx with rfl | rfl
    · rcases (mem_withTwin hb.language_ne).mp hy with rfl | rfl
      · exact hab
      · exact hab'
    · rcases (mem_withTwin hb.language_ne).mp hy with rfl | rfl
      · exact hba'
      · exact hab''
  · obtain ⟨d, hd, ha⟩ := List.mem_flatMap.mp ha
    have hd := isBokmal_of_mem_dropLast script region variant hd
    rw [List.mem_singleton.mp hb]
    rcases (mem_withTwin hd.language_ne).mp ha with rfl | rfl
    · exact hroot hd.language_ne
    · exact hroot (by rw [language_twin]; decide)

theorem bokmalChain_pairwise_mayPrecede :
    (bokmalChain script region variant).Pairwise MayPrecede := by
  refine pairwise_bokmalChain script region variant (fun _ => (root_generalises _).mayPrecede)
    ?_ ?_ (ordinaryChain_pairwise_mayPrecede "nb" script region variant)
  · intro a ha
    exact mayPrecede_of_language ha.language_ne (ha.language_ne_twin a)
  · intro a b ha hb hab
    exact ⟨mayPrecede_of_language ha.language_ne (ha.language_ne_twin b),
      mayPrecede_of_language (by rw [language_twin]; decide) (hb.language_ne_twin a).symm,
      mayPrecede_twin ha.1.isUsual hb.1.isUsual (ha.2.trans hb.2.symm) hab⟩

theorem bokmalChain_pairwise_specificity :
    (bokmalChain "" region variant).Pairwise fun a b => b.specificity ≤ a.specificity := by
  have htwin : ∀ {d : Locale}, d.IsBokmal → d.twin.specificity = d.specificity := fun h =>
    specificity_twin h.1.isUsual h.language_ne
  refine pairwise_bokmalChain "" region variant (fun _ => Nat.zero_le _) ?_ ?_
    (ordinaryChain_pairwise_specificity "nb" region variant)
  · intro a ha
    exact Nat.le_of_eq (htwin ha)
  · intro a b ha hb hab
    rw [htwin ha, htwin hb]
    exact ⟨hab, hab, hab⟩

theorem nynorskChain_pairwise_mayPrecede :
    (nynorskChain script region variant).Pairwise MayPrecede := by
  have htail : [unscripted "no" "NO" "NY", unscripted "no" "NO" "", ofLanguage "no",
      root].Pairwise fun a b => b.Generalises a := by
    decide
  refine List.pairwise_append.mpr
    ⟨(ordinaryChain_pairwise_mayPrecede "nn" script region variant).sublist
      (List.dropLast_sublist _), htail.imp Generalises.mayPrecede, fun a ha b hb => ?_⟩
  have hl : a.language = "nn" := language_of_mem_dropLast ha
  by_cases hb' : b = root
  · exact hb' ▸ (root_generalises a).mayPrecede
  · have hno : b.language = "no" := by
      simp only [List.mem_cons, List.not_mem_nil, or_false, hb'] at hb
      rcases hb with rfl | rfl | rfl <;> rfl
    refine mayPrecede_of_language ?_ ?_
    · rw [hl]
      decide
    · rw [hl, hno]
      decide

end Norwegian

/-! ## Candidates -/

/-- Which chain a locale has. -/
inductive ChainCase (l : Locale) : List Locale → Prop
  | oldNynorsk (h : l.legacy? = some .nynorsk) : ChainCase l (nynorskChain l.script l.region "")
  | bokmal (h : l.language = "no" ∨ l.language = "nb") :
      ChainCase l (bokmalChain l.script l.region l.variant)
  | nynorsk (h : l.language = "nn") : ChainCase l (nynorskChain l.script l.region l.variant)
  | chinese (h : l.language = "zh") (script region : String) :
      ChainCase l (ordinaryChain "zh" script region l.variant)
  | ordinary (h : l.language ∉ ["no", "nb", "nn", "zh"]) :
      ChainCase l (ordinaryChain l.language l.script l.region l.variant)

theorem chainCase (l : Locale) : ChainCase l l.candidates := by
  unfold candidates
  split
  · exact .oldNynorsk ‹_›
  · split
    · exact .bokmal ‹_›
    · split
      · exact .nynorsk ‹_›
      · split
        · rename_i hl
          unfold chineseChain
          split
          · exact .chinese hl _ _
          · split <;> exact .chinese hl _ _
        · rename_i hb hnn hzh
          obtain ⟨hno, hnb⟩ := not_or.mp hb
          exact .ordinary (by simp [hno, hnb, hnn, hzh])

theorem candidates_pairwise_specificity {l : Locale} (hs : l.script = "")
    (hl : l.language ∉ ["zh", "no", "nn"]) :
    l.candidates.Pairwise fun a b => b.specificity ≤ a.specificity := by
  simp only [List.mem_cons, List.not_mem_nil, or_false, not_or] at hl
  obtain ⟨hzh, hno, hnn⟩ := hl
  have hcase := chainCase l
  generalize l.candidates = chain at hcase
  cases hcase with
  | oldNynorsk h => exact absurd (Legacy.ofFields?_eq_some_iff.mp h).1.symm hno
  | bokmal =>
    rw [hs]
    exact bokmalChain_pairwise_specificity _ _
  | nynorsk h => exact absurd h hnn
  | chinese h => exact absurd h hzh
  | ordinary =>
    rw [hs]
    exact ordinaryChain_pairwise_specificity _ _ _

/-- A candidate that generalises a later one has the same base fields; and without a script,
    except in Chinese and where entries of Norwegian are added, no candidate has more fields
    than one before it. -/
theorem candidates_never_more_specific (l : Locale) :
    (l.candidates.Pairwise fun a b => a.Generalises b → a.bare = b.bare) ∧
      (l.script = "" → l.language ∉ ["zh", "no", "nn"] →
        l.candidates.Pairwise fun a b => b.specificity ≤ a.specificity) := by
  refine ⟨?_, candidates_pairwise_specificity⟩
  have hcase := chainCase l
  generalize l.candidates = chain at hcase
  cases hcase with
  | oldNynorsk => exact nynorskChain_pairwise_mayPrecede _ _ _
  | bokmal => exact bokmalChain_pairwise_mayPrecede _ _ _
  | nynorsk => exact nynorskChain_pairwise_mayPrecede _ _ _
  | chinese => exact ordinaryChain_pairwise_mayPrecede _ _ _ _
  | ordinary => exact ordinaryChain_pairwise_mayPrecede _ _ _ _

/-- German with two pieces of a variant loses a field at a time; in English with a variant
    that opens with a separator the second candidate generalises the third, and is the same. -/
theorem candidates_never_more_specific_german :
    let german := ofFields "de" "" "DE" "1901_posix"
    let english := ofFields "en" "" "US" "_posix"
    german.script = "" ∧ german.language ∉ ["zh", "no", "nn"] ∧
      (german.candidates.Pairwise fun a b => b.specificity ≤ a.specificity) ∧
      (english.candidates.Pairwise fun a b => a.Generalises b → a.bare = b.bare) ∧
      ∃ a b, english.candidates[1]? = some a ∧ english.candidates[2]? = some b ∧
        a.Generalises b :=
  ⟨rfl, by decide, (candidates_never_more_specific _).2 rfl (by decide),
    (candidates_never_more_specific _).1, _, _, rfl, rfl, by decide⟩

end Locale

end LocaleServices

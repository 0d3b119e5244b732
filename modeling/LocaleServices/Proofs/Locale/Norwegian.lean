import LocaleServices.Proofs.Locale.Ordinary
import LocaleServices.Proofs.Locale.Repeats

/-!
  Norwegian chains against the ordinary chain.

  `inLanguage` puts another language into an entry. Apart from the markers of Japanese and
  Thai, an ordinary chain depends on its language in no other way (`map_inLanguage`). The
  chain of Bokmål `IsInterleaved`: it has these entries in their order, each followed by its
  twin in the language `no`. The chain of Nynorsk has them up to the root and then the old
  spellings. Main statement: `candidates_norwegian`.
-/

namespace LocaleServices.Locale

/-! ## The ordinary chain in another language -/

/-- The entry with its language replaced; the root has none. -/
def inLanguage (language : String) (d : Locale) : Locale :=
  if d.language = "" then d else { d with language := language }

theorem inLanguage_of_ne {d : Locale} (language : String) (h : d.language ≠ "") :
    d.inLanguage language = { d with language := language } := by
  rw [inLanguage, if_neg h]

/-- Only Japanese and Thai have a marker. -/
theorem markerOf_of_language {language : String} (h : language ∉ ["ja", "th"])
    (script region variant : String) : markerOf language script region variant = .empty := by
  unfold markerOf
  split
  · cases hf : Legacy.ofFields? language region variant with
    | none => rfl
    | some form =>
      have hl : form.language = language := (Legacy.ofFields?_eq_some_iff.mp hf).1
      cases form with
      | japanese => exact absurd hl.symm fun he => h (he ▸ by decide)
      | thai => exact absurd hl.symm fun he => h (he ▸ by decide)
      | nynorsk => rfl
  · rfl

section Renaming

variable {language other : String}

theorem inLanguage_ofFields (hl : Text.lower language ∉ ["", "ja", "th"])
    (ho : Text.lower other = other) (hm : other ∉ ["ja", "th"]) (script region variant : String) :
    (ofFields language script region variant).inLanguage other =
      ofFields other script region variant := by
  obtain ⟨hne, hl⟩ : Text.lower language ≠ "" ∧ Text.lower language ∉ ["ja", "th"] := by
    rwa [List.mem_cons, not_or] at hl
  rw [inLanguage_of_ne other (by rwa [language_ofFields])]
  simp only [ofFields, ho, markerOf_of_language hl, markerOf_of_language hm]

/-- The ordinary chain in another language differs from entry to entry in the language only. -/
theorem map_inLanguage (hl : Text.lower language ∉ ["", "ja", "th"])
    (ho : Text.lower other = other) (hm : other ∉ ["", "ja", "th"])
    (script region variant : String) :
    (ordinaryChain language script region variant).map (inLanguage other) =
      ordinaryChain other script region variant := by
  obtain ⟨hne, hm⟩ : other ≠ "" ∧ other ∉ ["ja", "th"] := by
    rwa [List.mem_cons, not_or] at hm
  have hlanguage : language ≠ "" := fun he => hl (by rw [he]; decide)
  have hone : ∀ s r v, (ofFields language s r v).inLanguage other = ofFields other s r v :=
    inLanguage_ofFields hl ho hm
  have hregional : ∀ s, (regionalCandidates language s region variant).map (inLanguage other) =
      regionalCandidates other s region variant := by
    intro s
    rw [regionalCandidates, List.map_append, List.map_map, apply_ite (List.map _), List.map_nil,
      List.map_singleton, hone]
    congr 2
    funext v
    exact hone s region v
  have hroot : root.inLanguage other = root := rfl
  simp only [ordinaryChain, scriptedCandidates, restartCandidates, List.map_append,
    apply_ite (List.map _), List.map_nil, List.map_singleton, hregional, hone, hroot, hlanguage,
    hne, if_false, ofLanguage, unscripted]

end Renaming

/-! ## Bokmål -/

/-- The chain has the given entries and behind each one in Bokmål, and nowhere else, its
    twin in `no`. -/
structure IsInterleaved (entries chain : List Locale) : Prop where
  /-- Without the entries in `no` these are left, in order. -/
  entries_eq : chain.filter (fun d => d.language ≠ "no") = entries
  /-- An entry in Bokmål is followed by its twin. -/
  followed : ∀ i d, chain[i]? = some d → d.language = "nb" →
    chain[i + 1]? = some { d with language := "no" }
  /-- An entry in `no` is the twin of the one before it. -/
  preceded : ∀ i d, chain[i]? = some d → d.language = "no" →
    ∃ j e, i = j + 1 ∧ chain[j]? = some e ∧ e.language = "nb" ∧ d = { e with language := "no" }

theorem isInterleaved_root : IsInterleaved [root] [root] where
  entries_eq := rfl
  followed := by
    intro i d hd hl
    rw [List.mem_singleton.mp (List.mem_of_getElem? hd)] at hl
    exact absurd hl (by decide)
  preceded := by
    intro i d hd hl
    rw [List.mem_singleton.mp (List.mem_of_getElem? hd)] at hl
    exact absurd hl (by decide)

theorem IsInterleaved.cons {d : Locale} {entries chain : List Locale} (hd : d.language = "nb")
    (h : IsInterleaved entries chain) :
    IsInterleaved (d :: entries) (d :: { d with language := "no" } :: chain) where
  entries_eq := by
    have hne : d.language ≠ "no" := by
      rw [hd]
      decide
    rw [List.filter_cons_of_pos (by simpa using hne), List.filter_cons_of_neg (by simp),
      h.entries_eq]
  followed := by
    intro i e he hl
    match i with
    | 0 => rw [← Option.some.inj he]; rfl
    | 1 =>
      rw [← Option.some.inj he] at hl
      exact absurd hl (show "no" ≠ "nb" by decide)
    | i + 2 => exact h.followed i e he hl
  preceded := by
    intro i e he hl
    match i with
    | 0 =>
      rw [← Option.some.inj he, hd] at hl
      exact absurd hl (by decide)
    | 1 => exact ⟨0, d, rfl, rfl, hd, (Option.some.inj he).symm⟩
    | i + 2 =>
      obtain ⟨j, e', hi, he', hl', rfl⟩ := h.preceded i e he hl
      exact ⟨j + 2, e', congrArg (· + 2) hi, he', hl', rfl⟩

/-- The twin of an entry in Bokmål differs from it in the language only. -/
theorem IsBokmal.twin_eq {d : Locale} (h : d.IsBokmal) :
    d.twin = { d with language := "no" } := by
  have hself : ofFields "nb" d.script d.region d.variant = d := by
    rw [← h.2]
    exact h.1.rebuilt_eq
  have htwin : (ofFields "nb" d.script d.region d.variant).inLanguage "no" = d.twin :=
    inLanguage_ofFields (by decide) (by decide) (by decide) _ _ _
  rw [← htwin, hself, inLanguage_of_ne "no" h.language_ne]

theorem IsBokmal.withTwin_eq {d : Locale} (h : d.IsBokmal) :
    d.withTwin = [d, { d with language := "no" }] := by
  rw [withTwin, if_neg h.language_ne, ← h.twin_eq]
  rfl

theorem isInterleaved_flatMap {ds : List Locale} (h : ∀ d ∈ ds, d.IsBokmal) :
    IsInterleaved (ds ++ [root]) (ds.flatMap withTwin ++ [root]) := by
  induction ds with
  | nil => exact isInterleaved_root
  | cons d ds ih =>
    have hd : d.IsBokmal := h d List.mem_cons_self
    have hrest := ih fun e he => h e (List.mem_cons_of_mem d he)
    rw [List.flatMap_cons, hd.withTwin_eq]
    exact hrest.cons hd.2

section Norwegian

variable (script region variant : String)

theorem isInterleaved_bokmalChain :
    IsInterleaved (ordinaryChain "nb" script region variant)
      (bokmalChain script region variant) := by
  have h := isInterleaved_flatMap fun d hd =>
    isBokmal_of_mem_dropLast script region variant hd
  rwa [dropLast_ordinaryChain, ← bokmalChain_eq] at h

variable {script region variant} {d : Locale}

theorem language_of_mem_bokmalChain (h : d ∈ bokmalChain script region variant) :
    d.language ∈ ["nb", "no", ""] := by
  rw [bokmalChain_eq, List.mem_append, List.mem_singleton] at h
  rcases h with h | rfl
  · obtain ⟨e, he, hd⟩ := List.mem_flatMap.mp h
    have he : e.IsBokmal := isBokmal_of_mem_dropLast script region variant he
    rcases (mem_withTwin he.language_ne).mp hd with rfl | rfl
    · rw [he.2]
      decide
    · rw [language_twin]
      decide
  · decide

/-! ## Nynorsk -/

theorem language_of_mem_nynorskChain (h : d ∈ nynorskChain script region variant) :
    d.language ∈ ["nn", "no", ""] := by
  rcases List.mem_append.mp h with h | h
  · rw [language_of_mem_dropLast h]
    decide
  · have hold : ∀ e ∈ [unscripted "no" "NO" "NY", unscripted "no" "NO" "", ofLanguage "no", root],
        e.language ∈ ["nn", "no", ""] := by
      decide
    exact hold d h

end Norwegian

/-! ## Candidates -/

section Candidates

variable {l : Locale}

theorem legacy?_eq_nynorsk_iff (h : l.language = "no") :
    l.legacy? = some .nynorsk ↔ l.region = "NO" ∧ l.variant = "NY" := by
  rw [legacy?, Legacy.ofFields?_eq_some_iff, h]
  constructor
  · rintro ⟨-, hr, hv⟩
    exact ⟨hr.symm, hv.symm⟩
  · rintro ⟨hr, hv⟩
    exact ⟨rfl, hr.symm, hv.symm⟩

theorem candidates_of_no (h : l.language = "no") :
    l.candidates = if l.region = "NO" ∧ l.variant = "NY" then nynorskChain l.script l.region ""
      else bokmalChain l.script l.region l.variant := by
  rw [candidates, if_pos (Or.inl h : l.language = "no" ∨ l.language = "nb")]
  simp only [legacy?_eq_nynorsk_iff h]

theorem candidates_of_bokmal (h : l.language = "nb") :
    l.candidates = bokmalChain l.script l.region l.variant := by
  rw [candidates, if_neg (legacy?_ne_nynorsk (by rw [h]; decide)), if_pos (Or.inr h)]

theorem candidates_of_nynorsk (h : l.language = "nn") :
    l.candidates = nynorskChain l.script l.region l.variant := by
  have hne : ¬ (l.language = "no" ∨ l.language = "nb") := by
    rw [h]
    decide
  rw [candidates, if_neg (legacy?_ne_nynorsk (fun he => hne (Or.inl he))), if_neg hne, if_pos h]

/-- Norwegian and Chinese have candidates in their own languages only. -/
theorem language_notMem_of_mem_candidates {d : Locale} (hd : d ∈ l.candidates)
    (hl : d.language ∉ ["no", "nb", "nn", "zh", ""]) :
    l.language ∉ ["no", "nb", "nn", "zh"] := by
  have hnynorsk : ["nn", "no", ""] ⊆ ["no", "nb", "nn", "zh", ""] := by decide
  have hbokmal : ["nb", "no", ""] ⊆ ["no", "nb", "nn", "zh", ""] := by decide
  have hcase := chainCase l
  generalize l.candidates = chain at hcase hd
  cases hcase with
  | oldNynorsk => exact absurd (hnynorsk (language_of_mem_nynorskChain hd)) hl
  | bokmal => exact absurd (hbokmal (language_of_mem_bokmalChain hd)) hl
  | nynorsk => exact absurd (hnynorsk (language_of_mem_nynorskChain hd)) hl
  | chinese =>
    rcases mem_ordinaryChain.mp hd with rfl | ⟨s, r, v, -, -, rfl⟩
    · exact absurd (by decide) hl
    · exact absurd (by decide : Text.lower "zh" ∈ _) hl
  | ordinary h => exact h

end Candidates

/-- Only the old spelling of Nynorsk sets the chain of `no` apart from that of Bokmål. -/
theorem candidates_no_eq_iff (script region variant : String) :
    (ofFields "no" script region variant).candidates =
        (ofFields "nb" script region variant).candidates ↔
      ¬ (Text.upper region = "NO" ∧ variant = "NY") := by
  rw [candidates_of_no rfl, candidates_of_bokmal rfl]
  split
  · rename_i hold
    refine ⟨fun he => ?_, fun hnot => absurd hold hnot⟩
    -- The chain of Bokmål opens in a language that the chain of Nynorsk does not have.
    have hmem : ofFields "nb" (Text.titled script) (Text.upper region) variant ∈
        bokmalChain (Text.titled script) (Text.upper region) variant :=
      mem_bokmalChain_of_mem (ofFields_mem_ordinaryChain (Or.inl rfl) _ _ _)
    have hnynorsk := language_of_mem_nynorskChain (he ▸ hmem)
    rw [language_ofFields] at hnynorsk
    exact absurd hnynorsk (by decide)
  · rename_i hold
    exact ⟨fun _ => hold, fun _ => rfl⟩

/-- What Norwegian adds to the chain of any other language, that of Japanese, Thai and
    Chinese left out. A chain for `no` is that of Bokmål, except for the old spelling of
    Nynorsk, which has the chain of Nynorsk. In Bokmål each entry but the root is followed by
    its twin in `no`; in Nynorsk the old spellings come before the root. -/
theorem candidates_norwegian (language script region variant : String)
    (h : Text.lower language ∉ ["", "no", "nb", "nn", "zh", "ja", "th"]) :
    let ordinary := (ofFields language script region variant).candidates
    let bokmal := (ofFields "nb" script region variant).candidates
    let nynorsk := (ofFields "nn" script region variant).candidates
    ((ofFields "no" script region variant).candidates = bokmal ↔
        ¬ (Text.upper region = "NO" ∧ variant = "NY")) ∧
      IsInterleaved (ordinary.map (inLanguage "nb")) bokmal ∧
      bokmal.getLast? = some root ∧
      (∀ d ∈ bokmal, d.language ≠ "nn") ∧
      nynorsk = (ordinary.map (inLanguage "nn")).dropLast ++
        [unscripted "no" "NO" "NY", unscripted "no" "NO" "", ofLanguage "no", root] ∧
      (∀ d ∈ nynorsk, d.language ≠ "nb") ∧
      (ofFields "no" script "NO" "NY").candidates =
        (ofFields "nn" script "NO" "").candidates := by
  intro ordinary bokmal nynorsk
  have hspecial : ∀ s ∈ ["no", "nb", "nn", "zh"] ++ ["", "ja", "th"],
      s ∈ ["", "no", "nb", "nn", "zh", "ja", "th"] := by
    decide
  have hordinary : Text.lower language ∉ ["no", "nb", "nn", "zh"] := fun hm =>
    h (hspecial _ (List.mem_append_left _ hm))
  have hunmarked : Text.lower (Text.lower language) ∉ ["", "ja", "th"] := by
    rw [Text.lower_lower]
    exact fun hm => h (hspecial _ (List.mem_append_right _ hm))
  have hchain : ordinary =
      ordinaryChain (Text.lower language) (Text.titled script) (Text.upper region) variant :=
    candidates_eq_ordinaryChain hordinary
  have hbokmal : bokmal = bokmalChain (Text.titled script) (Text.upper region) variant :=
    candidates_of_bokmal rfl
  have hnynorsk : nynorsk = nynorskChain (Text.titled script) (Text.upper region) variant :=
    candidates_of_nynorsk rfl
  refine ⟨candidates_no_eq_iff _ _ _, ?_, getLast?_candidates _, ?_, ?_, ?_, ?_⟩
  · rw [hbokmal, hchain, map_inLanguage hunmarked (by decide) (by decide)]
    exact isInterleaved_bokmalChain _ _ _
  · intro d hd hl
    rw [hbokmal] at hd
    exact absurd (language_of_mem_bokmalChain hd) (by rw [hl]; decide)
  · rw [hnynorsk, hchain, map_inLanguage hunmarked (by decide) (by decide)]
    rfl
  · intro d hd hl
    rw [hnynorsk] at hd
    exact absurd (language_of_mem_nynorskChain hd) (by rw [hl]; decide)
  · rw [candidates_of_no rfl, candidates_of_nynorsk rfl]
    rfl

/-- With a script, the region `NO` and the variant `NY` the language `no` does not have the
    chain of Bokmål, which has the entries of English with their twins all the same. -/
theorem candidates_norwegian_old :
    let bokmal := (ofFields "nb" "latn" "no" "NY").candidates
    Text.lower "EN" ∉ ["", "no", "nb", "nn", "zh", "ja", "th"] ∧
      (ofFields "no" "latn" "no" "NY").candidates ≠ bokmal ∧
      IsInterleaved ((ofFields "EN" "latn" "no" "NY").candidates.map (inLanguage "nb")) bokmal ∧
      bokmal[1]? = some (ofFields "no" "Latn" "NO" "NY") := by
  intro bokmal
  have hl : Text.lower "EN" ∉ ["", "no", "nb", "nn", "zh", "ja", "th"] := by decide
  obtain ⟨hno, htwins, -⟩ := candidates_norwegian "EN" "latn" "no" "NY" hl
  refine ⟨hl, fun he => hno.mp he ⟨by decide, rfl⟩, htwins, ?_⟩
  exact htwins.followed 0 _ rfl (by decide)

end LocaleServices.Locale

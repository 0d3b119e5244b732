import LocaleServices.Locale.AvailabilityKey
import LocaleServices.Locale.Candidates

/-!
  Locales that can be built, and the usual case of their fields.

  `Built` holds of every locale that the operations on locales produce. Its fields are in
  their usual case (`Built.isUsual`), whatever texts it was built from, so making a locale
  anew from them (`rebuilt`) gives the same base fields (`bare_rebuilt`). A rebuilt locale
  has no extensions but the marker of a legacy form, and every candidate is its own rebuilt
  form (`rebuilt_of_mem_candidates`).
-/

namespace LocaleServices

theorem Legacy.marker_eq_empty_iff {form : Legacy} : form.marker = .empty ↔ form = .nynorsk := by
  cases form <;> decide

theorem Legacy.lower_modernLanguage (form : Legacy) :
    Text.lower form.modernLanguage = form.modernLanguage := by
  cases form <;> decide

namespace Locale

/-- The locales that the operations on locales produce. -/
inductive Built : Locale → Prop
  | ofFields (language script region variant : String) :
      Built (Locale.ofFields language script region variant)
  | withExtension {l : Locale} (key : Char) (value : String) :
      Built l → Built (l.withExtension key value)
  | bare {l : Locale} : Built l → Built l.bare
  | cleared {l m : Locale} : Built l → l.cleared = .ok m → Built m
  | availabilityKey {l : Locale} : Built l → Built l.availabilityKey
  | candidate {l d : Locale} : Built l → d ∈ l.candidates → Built d

/-- Small language, titled script, capital region. -/
structure IsUsual (l : Locale) : Prop where
  language : Text.lower l.language = l.language
  script : Text.titled l.script = l.script
  region : Text.upper l.region = l.region

/-- The locale made anew from the base fields. -/
def rebuilt (l : Locale) : Locale := ofFields l.language l.script l.region l.variant

/-! ## Fields of a made locale -/

section Fields

variable (language script region variant : String)

@[simp] theorem language_ofFields :
    (ofFields language script region variant).language = Text.lower language := rfl

@[simp] theorem script_ofFields :
    (ofFields language script region variant).script = Text.titled script := rfl

@[simp] theorem region_ofFields :
    (ofFields language script region variant).region = Text.upper region := rfl

@[simp] theorem variant_ofFields :
    (ofFields language script region variant).variant = variant := rfl

theorem isUsual_ofFields : (ofFields language script region variant).IsUsual :=
  ⟨Text.lower_lower _, Text.titled_titled _, Text.upper_upper _⟩

theorem rebuilt_ofFields :
    (ofFields language script region variant).rebuilt =
      ofFields language script region variant :=
  ofFields_ofFields language script region variant

/-- The twin of an entry has the fields that the entry was made from. -/
theorem ofFields_titled_upper :
    ofFields language (Text.titled script) (Text.upper region) variant =
      ofFields language script region variant := by
  simp only [ofFields, Text.titled_titled, Text.upper_upper]

end Fields

theorem root_eq_ofFields : root = ofFields "" "" "" "" := by decide

/-! ## The marker -/

/-- Whether the fields alone stand for a calendar or for digits. -/
def standsForMarker (l : Locale) : Prop :=
  l.script = "" ∧ (l.legacy? = some .japanese ∨ l.legacy? = some .thai)

/-- The marker is there exactly when the fields ask for it. -/
theorem markerOf_eq_empty_iff {l : Locale} :
    markerOf l.language l.script l.region l.variant = .empty ↔ ¬ l.standsForMarker := by
  unfold markerOf standsForMarker legacy?
  by_cases hs : l.script = ""
  · rw [if_pos hs]
    cases Legacy.ofFields? l.language l.region l.variant with
    | none => simp
    | some form =>
      rw [Legacy.marker_eq_empty_iff]
      cases form <;> simp [hs]
  · simp [hs]

/-! ## Rebuilding -/

theorem IsUsual.of_bare_eq {a b : Locale} (h : a.bare = b.bare) (ha : a.IsUsual) : b.IsUsual := by
  obtain ⟨hl, hs, hr, _⟩ := bare_eq_iff.mp h
  exact ⟨hl ▸ ha.language, hs ▸ ha.script, hr ▸ ha.region⟩

theorem rebuilt_congr {a b : Locale} (h : a.bare = b.bare) : a.rebuilt = b.rebuilt := by
  obtain ⟨hl, hs, hr, hv⟩ := bare_eq_iff.mp h
  simp only [rebuilt, hl, hs, hr, hv]

theorem IsUsual.rebuilt_eq {l : Locale} (h : l.IsUsual) :
    l.rebuilt =
      { l with extensions := markerOf l.language l.script l.region l.variant } := by
  simp only [rebuilt, ofFields, h.language, h.script, h.region]

theorem IsUsual.bare_rebuilt {l : Locale} (h : l.IsUsual) : l.rebuilt.bare = l.bare := by
  rw [h.rebuilt_eq]
  rfl

/-- Without a marker the rebuilt locale is the bare one. -/
theorem IsUsual.rebuilt_eq_bare {l : Locale} (h : l.IsUsual) (hm : ¬ l.standsForMarker) :
    l.rebuilt = l.bare := by
  rw [h.rebuilt_eq, markerOf_eq_empty_iff.mpr hm]
  rfl

/-- A locale is its rebuilt form when its extensions are what the fields ask for. -/
theorem IsUsual.rebuilt_eq_self_iff {l : Locale} (h : l.IsUsual) :
    l.rebuilt = l ↔ l.extensions = markerOf l.language l.script l.region l.variant := by
  rw [h.rebuilt_eq]
  constructor
  · intro he
    exact (congrArg extensions he).symm
  · intro he
    rw [← he]

/-! ## Every candidate is made from fields -/

/-- The locales that come from four texts. -/
def IsMade (l : Locale) : Prop :=
  ∃ language script region variant, l = ofFields language script region variant

theorem IsMade.rebuilt_eq {l : Locale} (h : l.IsMade) : l.rebuilt = l := by
  obtain ⟨language, script, region, variant, rfl⟩ := h
  exact rebuilt_ofFields language script region variant

theorem IsMade.isUsual {l : Locale} (h : l.IsMade) : l.IsUsual := by
  obtain ⟨language, script, region, variant, rfl⟩ := h
  exact isUsual_ofFields language script region variant

theorem isMade_ofFields (language script region variant : String) :
    (ofFields language script region variant).IsMade := ⟨language, script, region, variant, rfl⟩

theorem isMade_root : root.IsMade := ⟨"", "", "", "", root_eq_ofFields⟩

theorem isMade_of_mem_regional {language script region variant : String} {d : Locale}
    (h : d ∈ regionalCandidates language script region variant) : d.IsMade := by
  rcases List.mem_append.mp h with h | h
  · obtain ⟨v, _, rfl⟩ := List.mem_map.mp h
    exact isMade_ofFields language script region v
  · split at h
    · simp at h
    · rw [List.mem_singleton.mp h]
      exact isMade_ofFields language script region ""

theorem isMade_of_mem_ordinaryChain {language script region variant : String} {d : Locale}
    (h : d ∈ ordinaryChain language script region variant) : d.IsMade := by
  simp only [ordinaryChain, scriptedCandidates, restartCandidates, List.mem_append,
    List.mem_singleton] at h
  rcases h with (((h | h) | h) | h) | rfl
  · exact isMade_of_mem_regional h
  · split at h
    · simp at h
    · exact List.mem_singleton.mp h ▸ isMade_ofFields language script "" ""
  · split at h
    · simp at h
    · exact isMade_of_mem_regional h
  · split at h
    · simp at h
    · exact List.mem_singleton.mp h ▸ isMade_ofFields language "" "" ""
  · exact isMade_root

theorem isMade_of_mem_withTwin {d e : Locale} (hd : d.IsMade) (h : e ∈ d.withTwin) :
    e.IsMade := by
  unfold withTwin at h
  split at h
  · exact List.mem_singleton.mp h ▸ hd
  · simp only [List.mem_cons, List.not_mem_nil, or_false] at h
    rcases h with rfl | rfl
    · exact hd
    · exact isMade_ofFields "no" d.script d.region d.variant

theorem isMade_of_mem_nynorskChain {script region variant : String} {d : Locale}
    (h : d ∈ nynorskChain script region variant) : d.IsMade := by
  simp only [nynorskChain, List.mem_append, List.mem_cons, List.not_mem_nil, or_false] at h
  rcases h with h | rfl | rfl | rfl | rfl
  · exact isMade_of_mem_ordinaryChain (List.dropLast_subset _ h)
  · exact isMade_ofFields "no" "" "NO" "NY"
  · exact isMade_ofFields "no" "" "NO" ""
  · exact isMade_ofFields "no" "" "" ""
  · exact isMade_root

theorem isMade_of_mem_candidates {l d : Locale} (h : d ∈ l.candidates) : d.IsMade := by
  unfold candidates at h
  split at h
  · exact isMade_of_mem_nynorskChain h
  · split at h
    · obtain ⟨e, he, hd⟩ := List.mem_flatMap.mp h
      exact isMade_of_mem_withTwin (isMade_of_mem_ordinaryChain he) hd
    · split at h
      · exact isMade_of_mem_nynorskChain h
      · split at h
        · unfold chineseChain at h
          split at h
          · exact isMade_of_mem_ordinaryChain h
          · split at h <;> exact isMade_of_mem_ordinaryChain h
        · exact isMade_of_mem_ordinaryChain h

theorem rebuilt_of_mem_candidates {l d : Locale} (h : d ∈ l.candidates) : d.rebuilt = d :=
  (isMade_of_mem_candidates h).rebuilt_eq

/-! ## Built locales -/

theorem IsUsual.modernized {l : Locale} (h : l.IsUsual) : l.modernized.IsUsual := by
  unfold Locale.modernized
  split
  · rename_i form _
    exact ⟨form.lower_modernLanguage, h.script, h.region⟩
  · exact h.of_bare_eq (bare_bare l).symm

theorem cleared_eq_ok_iff {l m : Locale} :
    l.cleared = .ok m ↔ l.modernized.fault? = none ∧ l.modernized = m := by
  unfold cleared
  cases l.modernized.fault? <;> simp

theorem cleared_eq_error_iff {l : Locale} {e : IllFormed} :
    l.cleared = .error e ↔ l.modernized.fault? = some e := by
  unfold cleared
  cases l.modernized.fault? <;> simp

theorem IsUsual.availabilityKey {l : Locale} (h : l.IsUsual) : l.availabilityKey.IsUsual := by
  unfold Locale.availabilityKey
  split
  · exact h
  · split
    · exact h.modernized
    · exact isUsual_ofFields _ _ _ _

/-- The fields of every built locale are in their usual case. -/
theorem Built.isUsual {l : Locale} (h : l.Built) : l.IsUsual := by
  induction h with
  | ofFields language script region variant =>
    exact isUsual_ofFields language script region variant
  | withExtension key value _ ih => exact ih.of_bare_eq (bare_withExtension _ key value).symm
  | bare _ ih => exact ih.of_bare_eq (bare_bare _).symm
  | cleared _ hm ih =>
    obtain ⟨-, rfl⟩ := cleared_eq_ok_iff.mp hm
    exact ih.modernized
  | availabilityKey _ ih => exact ih.availabilityKey
  | candidate _ hd _ => exact (isMade_of_mem_candidates hd).isUsual

end Locale

end LocaleServices

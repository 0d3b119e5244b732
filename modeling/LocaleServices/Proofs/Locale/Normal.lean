import LocaleServices.Proofs.Locale.Key

/-!
  The normal form of keys and candidates.

  A locale is plain when it has no extensions, or nothing but the marker that its fields ask
  for. Every key is plain (`isPlain_availabilityKey`) and so is every locale made from its
  fields (`IsMade.isPlain`), in particular every candidate. A plain locale is its own key and
  has extensions only as one of the two irregular locales (`eq_irregular_of_isPlain`). Main
  statement: `availabilityKey_normal`.
-/

namespace LocaleServices.Locale

variable {l : Locale}

/-! ## Plain locales -/

theorem availabilityKey_of_isPlain (h : l.isPlain = true) : l.availabilityKey = l := by
  rw [availabilityKey, if_pos h]

/-- The fields of a locale that stands for a calendar or for digits, with their marker. -/
theorem rebuilt_of_standsForMarker (h : l.standsForMarker) :
    l.rebuilt = japaneseCalendar ∨ l.rebuilt = thaiDigits := by
  obtain ⟨hs, hj | ht⟩ := h
  · obtain ⟨hl, hr, hv⟩ := legacy?_eq_some_iff.mp hj
    rw [rebuilt, hs, ← hl, ← hr, ← hv]
    exact Or.inl rfl
  · obtain ⟨hl, hr, hv⟩ := legacy?_eq_some_iff.mp ht
    rw [rebuilt, hs, ← hl, ← hr, ← hv]
    exact Or.inr rfl

theorem isUsual_of_standsForMarker (h : l.standsForMarker) : l.IsUsual := by
  obtain ⟨hs, hj | ht⟩ := h
  · obtain ⟨hl, hr, -⟩ := legacy?_eq_some_iff.mp hj
    exact ⟨hl ▸ rfl, hs ▸ rfl, hr ▸ rfl⟩
  · obtain ⟨hl, hr, -⟩ := legacy?_eq_some_iff.mp ht
    exact ⟨hl ▸ rfl, hs ▸ rfl, hr ▸ rfl⟩

theorem isIrregular_iff :
    l.isIrregular = true ↔
      l.standsForMarker ∧ l.extensions = markerOf l.language l.script l.region l.variant := by
  have hmarked : l.extensions = markerOf l.language l.script l.region l.variant →
      (l.hasExtensions = true ↔ l.standsForMarker) := by
    intro he
    rw [← Bool.not_eq_false, hasExtensions_eq_false_iff, he, markerOf_eq_empty_iff,
      Classical.not_not]
  simp only [isIrregular, Bool.and_eq_true, decide_eq_true_eq]
  constructor
  · rintro ⟨⟨he, -⟩, hm⟩
    exact ⟨(hmarked hm).mp he, hm⟩
  · rintro ⟨hs, hm⟩
    exact ⟨⟨(hmarked hm).mpr hs, hs.1⟩, hm⟩

/-- A plain locale with extensions is Japanese with its calendar or Thai with its digits. -/
theorem eq_irregular_of_isPlain (h : l.isPlain = true) (he : l.hasExtensions = true) :
    l = japaneseCalendar ∨ l = thaiDigits := by
  have hi : l.isIrregular = true := by simpa [isPlain, he] using h
  obtain ⟨hs, hm⟩ := isIrregular_iff.mp hi
  have hself : l.rebuilt = l := (isUsual_of_standsForMarker hs).rebuilt_eq_self_iff.mpr hm
  have hrebuilt := rebuilt_of_standsForMarker hs
  rwa [hself] at hrebuilt

/-! ## Keys and made locales are plain -/

theorem hasExtensions_modernized (l : Locale) : l.modernized.hasExtensions = false := by
  unfold modernized
  split <;> rfl

theorem IsMade.isPlain (h : l.IsMade) : l.isPlain = true := by
  have hm := h.isUsual.rebuilt_eq_self_iff.mp h.rebuilt_eq
  by_cases hs : l.standsForMarker
  · rw [Locale.isPlain, isIrregular_iff.mpr ⟨hs, hm⟩, Bool.or_true]
  · rw [markerOf_eq_empty_iff.mpr hs] at hm
    exact isPlain_of_not_hasExtensions (hasExtensions_eq_false_iff.mpr hm)

theorem isPlain_availabilityKey (l : Locale) : l.availabilityKey.isPlain = true := by
  unfold availabilityKey
  split
  · assumption
  · split
    · exact isPlain_of_not_hasExtensions l.hasExtensions_modernized
    · exact (isMade_ofFields _ _ _ _).isPlain

/-- Keys and candidates have one normal form, whatever the locale: each is its own key, each
    has extensions only as one of the two irregular locales, and a candidate is what its
    fields make. -/
theorem availabilityKey_normal (l : Locale) :
    l.availabilityKey.availabilityKey = l.availabilityKey ∧
      (l.availabilityKey.hasExtensions = true →
        l.availabilityKey = japaneseCalendar ∨ l.availabilityKey = thaiDigits) ∧
      ∀ d ∈ l.candidates, d.availabilityKey = d ∧
        d = ofFields d.language d.script d.region d.variant ∧
        (d.hasExtensions = true → d = japaneseCalendar ∨ d = thaiDigits) := by
  have hkey := l.isPlain_availabilityKey
  refine ⟨availabilityKey_of_isPlain hkey, eq_irregular_of_isPlain hkey, fun d hd => ?_⟩
  have hmade : d.IsMade := isMade_of_mem_candidates hd
  exact ⟨availabilityKey_of_isPlain hmade.isPlain, hmade.rebuilt_eq.symm,
    eq_irregular_of_isPlain hmade.isPlain⟩

/-- Japanese with an ill-formed script and a further extension: the key loses both and takes
    on the marker, and so does a candidate. -/
theorem availabilityKey_normal_japanese :
    let l := (ofFields "ja" "Ha" "JP" "JP").withExtension 'u' "nu-latn"
    l.availabilityKey.hasExtensions = true ∧ l.availabilityKey = japaneseCalendar ∧
      l.availabilityKey.availabilityKey = l.availabilityKey ∧
      japaneseCalendar ∈ l.candidates ∧
      japaneseCalendar.availabilityKey = japaneseCalendar ∧
      japaneseCalendar = ofFields japaneseCalendar.language japaneseCalendar.script
        japaneseCalendar.region japaneseCalendar.variant := by
  intro l
  have hext : l.availabilityKey.hasExtensions = true := by decide
  have hmem : japaneseCalendar ∈ l.candidates := by decide
  obtain ⟨hself, hirregular, hcandidates⟩ := availabilityKey_normal l
  have hne : l.availabilityKey ≠ thaiDigits := by decide
  obtain ⟨hkey, hmade, -⟩ := hcandidates japaneseCalendar hmem
  exact ⟨hext, (hirregular hext).resolve_right hne, hself, hmem, hkey, hmade⟩

end LocaleServices.Locale

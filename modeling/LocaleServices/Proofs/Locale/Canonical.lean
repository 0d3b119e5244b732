import LocaleServices.Proofs.Locale.Edits
import Mathlib

/-!
  The form in which locales are kept.

  A locale `IsCanonical` when its language is in small letters, its script titled, its region
  in capital letters and its extensions in small letters, none of them empty and no two under
  one key; characters other than the letters A to Z are free. These are exactly the locales
  that can be built: each operation keeps the form (`Built.isUsual`, `Built.areSmall`), and a
  locale of this form is its base fields edited by its own extensions. So its fields make up
  its base fields again. Main statement: `built_iff_isCanonical`.
-/

namespace LocaleServices

/-! ## Texts that a change of case leaves alone -/

namespace Text

variable {c : Char} {s : String}

theorem toLower_eq_self_iff : c.toLower = c ↔ c.isUpper = false := by
  constructor
  · intro h
    rw [← h]
    exact c.isUpper_toLower_eq_false
  · intro h
    exact Char.toLower_eq_of_not_isUpper (by simp [h])

theorem toUpper_eq_self_iff : c.toUpper = c ↔ c.isLower = false := by
  constructor
  · intro h
    rw [← h]
    exact c.isLower_toUpper_eq_false
  · intro h
    exact Char.toUpper_eq_of_not_isLower (by simp [h])

theorem map_eq_self_iff {f : Char → Char} {t : List Char} :
    t.map f = t ↔ ∀ c ∈ t, f c = c := by
  conv_lhs => rhs; rw [← List.map_id t]
  exact List.map_inj_left

theorem lower_eq_self_iff : lower s = s ↔ ∀ c ∈ s.toList, c.isUpper = false := by
  simp only [← String.toList_inj, toList_lower, map_eq_self_iff, toLower_eq_self_iff]

theorem upper_eq_self_iff : upper s = s ↔ ∀ c ∈ s.toList, c.isLower = false := by
  simp only [← String.toList_inj, toList_upper, map_eq_self_iff, toUpper_eq_self_iff]

theorem titled_eq_self_iff :
    titled s = s ↔ (∀ c ∈ s.toList.head?, c.isLower = false) ∧
      ∀ c ∈ s.toList.tail, c.isUpper = false := by
  rw [← String.toList_inj, toList_titled]
  cases s.toList with
  | nil => simp [titledChars]
  | cons c r => simp [titledChars, map_eq_self_iff, toLower_eq_self_iff, toUpper_eq_self_iff]

end Text

/-! ## Extensions in small letters -/

/-- A key and a value without capital letters, and a value that is not empty. -/
structure Extension.IsSmall (e : Extension) : Prop where
  key : e.key.isUpper = false
  nonempty : e.value ≠ ""
  value : ∀ c ∈ e.value.toList, c.isUpper = false

/-- Edited with a small extension, its key answers with its value. -/
theorem Extension.IsSmall.outcome_eq {e : Extension} (h : e.IsSmall) :
    e.outcome = some e.value := by
  rw [Extension.outcome, if_neg h.nonempty, Text.lower_eq_self_iff.mpr h.value]

namespace Extensions

variable {x : Extensions}

def AreSmall (x : Extensions) : Prop := ∀ e ∈ x.entries, e.IsSmall

theorem areSmall_empty : empty.AreSmall := by
  intro e he
  cases he

theorem areSmall_marker (form : Legacy) : form.marker.AreSmall := by
  intro e he
  cases form with
  | japanese | thai =>
    obtain rfl := List.mem_singleton.mp he
    exact ⟨by decide, by decide, Text.lower_eq_self_iff.mp (by decide)⟩
  | nynorsk => cases he

theorem AreSmall.insert (h : x.AreSmall) (key : Char) {value : String} (hv : value ≠ "") :
    (x.insert key.toLower (Text.lower value)).AreSmall := by
  intro e he
  rcases Extension.mem_putIn he with rfl | he
  · exact ⟨key.isUpper_toLower_eq_false, mt Text.lower_eq_empty_iff.mp hv,
      Text.lower_eq_self_iff.mp (Text.lower_lower value)⟩
  · exact h e he

theorem AreSmall.erase (h : x.AreSmall) (key : Char) : (x.erase key).AreSmall :=
  fun e he => h e (List.mem_filter.mp he).1

theorem nodup_keys (x : Extensions) : (x.entries.map Extension.key).Nodup :=
  List.pairwise_map.mpr (x.ascending.imp Char.ne_of_lt)

end Extensions

namespace Locale

variable {l : Locale}

/-! ## Every operation keeps extensions small -/

theorem areSmall_markerOf (language script region variant : String) :
    (markerOf language script region variant).AreSmall := by
  unfold markerOf
  split
  · split
    · exact Extensions.areSmall_marker _
    · exact Extensions.areSmall_empty
  · exact Extensions.areSmall_empty

theorem areSmall_of_not_hasExtensions (h : l.hasExtensions = false) :
    l.extensions.AreSmall := by
  rw [hasExtensions_eq_false_iff.mp h]
  exact Extensions.areSmall_empty

theorem IsMade.areSmall (h : l.IsMade) : l.extensions.AreSmall := by
  obtain ⟨language, script, region, variant, rfl⟩ := h
  exact areSmall_markerOf _ _ _ _

theorem areSmall_withExtension (h : l.extensions.AreSmall) (key : Char) (value : String) :
    (l.withExtension key value).extensions.AreSmall := by
  unfold withExtension
  split
  · exact h.erase key.toLower
  · rename_i hv
    exact h.insert key hv

theorem areSmall_availabilityKey (h : l.extensions.AreSmall) :
    l.availabilityKey.extensions.AreSmall := by
  unfold availabilityKey
  split
  · exact h
  · split
    · exact areSmall_of_not_hasExtensions l.hasExtensions_modernized
    · exact (isMade_ofFields _ _ _ _).areSmall

theorem Built.areSmall (h : l.Built) : l.extensions.AreSmall := by
  induction h with
  | ofFields language script region variant => exact (isMade_ofFields _ _ _ _).areSmall
  | withExtension key value _ ih => exact areSmall_withExtension ih key value
  | bare => exact Extensions.areSmall_empty
  | cleared _ hm =>
    obtain ⟨-, rfl⟩ := cleared_eq_ok_iff.mp hm
    exact areSmall_of_not_hasExtensions (hasExtensions_modernized _)
  | availabilityKey _ ih => exact areSmall_availabilityKey ih
  | candidate _ hd => exact (isMade_of_mem_candidates hd).areSmall

/-! ## Canonical locales -/

/-- The form of a locale, letter by letter. -/
structure IsCanonical (l : Locale) : Prop where
  language : ∀ c ∈ l.language.toList, c.isUpper = false
  script_head : ∀ c ∈ l.script.toList.head?, c.isLower = false
  script_tail : ∀ c ∈ l.script.toList.tail, c.isUpper = false
  region : ∀ c ∈ l.region.toList, c.isLower = false
  distinct : (l.extensions.entries.map Extension.key).Nodup
  small : ∀ e ∈ l.extensions.entries, e.IsSmall

theorem isCanonical_iff : l.IsCanonical ↔ l.IsUsual ∧ l.extensions.AreSmall := by
  constructor
  · intro h
    exact ⟨⟨Text.lower_eq_self_iff.mpr h.language,
      Text.titled_eq_self_iff.mpr ⟨h.script_head, h.script_tail⟩,
      Text.upper_eq_self_iff.mpr h.region⟩, h.small⟩
  · rintro ⟨husual, hsmall⟩
    obtain ⟨hhead, htail⟩ := Text.titled_eq_self_iff.mp husual.script
    exact ⟨Text.lower_eq_self_iff.mp husual.language, hhead, htail,
      Text.upper_eq_self_iff.mp husual.region, l.extensions.nodup_keys, hsmall⟩

/-- The fields and the extensions of a canonical locale build it. -/
theorem built_of_isUsual (h : l.IsUsual) (hsmall : l.extensions.AreSmall) : l.Built := by
  have hfields : l.rebuilt.Built := .ofFields l.language l.script l.region l.variant
  have hedited := hfields.bare.edited l.extensions.entries
  rw [h.bare_rebuilt, edited_bare fun e he =>
    ⟨Text.toLower_eq_self_iff.mpr (hsmall e he).key, (hsmall e he).outcome_eq⟩] at hedited
  exact hedited

/-- The locales that can be built are those in canonical form, whatever texts they come from:
    no capital letter in the language, no small one in the region, a script with no small
    letter in front and no capital one behind it, and extensions under distinct keys, with
    neither an empty value nor a capital letter. The four fields of such a locale make up
    these fields again. -/
theorem built_iff_isCanonical (l : Locale) :
    (l.Built ↔ l.IsCanonical) ∧
      (l.Built → (ofFields l.language l.script l.region l.variant).bare = l.bare) := by
  refine ⟨⟨fun h => isCanonical_iff.mpr ⟨h.isUsual, h.areSmall⟩, fun h => ?_⟩,
    fun h => h.isUsual.bare_rebuilt⟩
  obtain ⟨husual, hsmall⟩ := isCanonical_iff.mp h
  exact built_of_isUsual husual hsmall

/-- A locale from odd texts and edits, its key and one of its candidates are all canonical. -/
theorem built_iff_isCanonical_odd :
    let l := (ofFields "NÉ-x" "lATN" "iß" "Ny_a").withExtension 'X' "FOO"
    let d := ofFields "nÉ-x" "" "Iß" "Ny"
    l.Built ∧ l.IsCanonical ∧ l.availabilityKey.IsCanonical ∧ d ∈ l.candidates ∧
      d.IsCanonical ∧ (ofFields l.language l.script l.region l.variant).bare = l.bare ∧
      l.extension? 'x' = some "foo" := by
  intro l d
  have hl : l.Built := (Built.ofFields "NÉ-x" "lATN" "iß" "Ny_a").withExtension 'X' "FOO"
  have hd : d ∈ l.candidates := by decide
  obtain ⟨hcanonical, hfields⟩ := built_iff_isCanonical l
  exact ⟨hl, hcanonical.mp hl, (built_iff_isCanonical _).1.mp hl.availabilityKey, hd,
    (built_iff_isCanonical d).1.mp (hl.candidate hd), hfields hl, by decide⟩

end Locale

end LocaleServices

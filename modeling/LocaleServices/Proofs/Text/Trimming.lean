import LocaleServices.Text.Blank
import LocaleServices.Text.Case
import Mathlib

/-!
  What it is to trim a text, and to change its case.

  `IsTrimmed s t` says that `s` is `t` with blanks around it and that `t` has no blank at
  either end; every text has exactly one such part, and `trimChars` finds it (`isTrimmed_iff`).
  Texts are `SameButCase` when they have the same small letters, or as well the same capital
  ones (`sameButCase_iff_map_toUpper`).
-/

namespace LocaleServices.Text

variable {s t : List Char}

/-! ## Blanks at the ends -/

theorem dropBlanks_append (h : ∀ c ∈ s, isBlank c = true) (t : List Char) :
    dropBlanks (s ++ t) = dropBlanks t := by
  induction s with
  | nil => rfl
  | cons c r ih =>
    obtain ⟨hc, hr⟩ := List.forall_mem_cons.mp h
    rw [List.cons_append, dropBlanks, if_pos hc, ih hr]

theorem dropBlanks_of_blank (h : ∀ c ∈ s, isBlank c = true) : dropBlanks s = [] := by
  rw [← List.append_nil s, dropBlanks_append h]
  rfl

/-- A text that opens with no blank loses none. -/
theorem dropBlanks_of_head? (h : ∀ c ∈ s.head?, isBlank c = false) : dropBlanks s = s := by
  cases s with
  | nil => rfl
  | cons c r => exact dropBlanks_of_head (h c rfl)

theorem exists_dropped_blanks (s : List Char) :
    ∃ front, s = front ++ dropBlanks s ∧ ∀ c ∈ front, isBlank c = true := by
  induction s with
  | nil => exact ⟨[], rfl, by simp⟩
  | cons c r ih =>
    by_cases hc : isBlank c = true
    · obtain ⟨front, hr, hblank⟩ := ih
      refine ⟨c :: front, ?_, List.forall_mem_cons.mpr ⟨hc, hblank⟩⟩
      rw [dropBlanks, if_pos hc, List.cons_append, ← hr]
    · refine ⟨[], ?_, by simp⟩
      rw [dropBlanks, if_neg hc, List.nil_append]

/-! ## Trimmed texts -/

/-- A text with blanks around a part that has none at its ends. -/
structure IsTrimmed (s t : List Char) : Prop where
  around : ∃ front back, s = front ++ t ++ back ∧ ∀ c ∈ front ++ back, isBlank c = true
  head : ∀ c ∈ t.head?, isBlank c = false
  last : ∀ c ∈ t.getLast?, isBlank c = false

theorem IsTrimmed.trimChars_eq (h : IsTrimmed s t) : trimChars s = t := by
  obtain ⟨front, back, rfl, hblank⟩ := h.around
  obtain ⟨hfront, hback⟩ := List.forall_mem_append.mp hblank
  have hlast : dropBlanks t.reverse = t.reverse :=
    dropBlanks_of_head? (by rw [List.head?_reverse]; exact h.last)
  unfold trimChars dropFinalBlanks
  rw [List.append_assoc, dropBlanks_append hfront]
  cases t with
  | nil =>
    rw [List.nil_append, dropBlanks_of_blank hback]
    rfl
  | cons c r =>
    have hback' : ∀ c ∈ back.reverse, isBlank c = true := by simpa using hback
    rw [List.cons_append, dropBlanks_of_head (h.head c rfl), ← List.cons_append,
      List.reverse_append, dropBlanks_append hback', hlast, List.reverse_reverse]

theorem isTrimmed_trimChars (s : List Char) : IsTrimmed s (trimChars s) := by
  obtain ⟨front, hfront, hblank⟩ := exists_dropped_blanks s
  obtain ⟨back, hback, hblank'⟩ := exists_dropped_blanks (dropBlanks s).reverse
  have hrest : dropBlanks s = trimChars s ++ back.reverse := by
    rw [← List.reverse_inj, hback]
    simp [trimChars, dropFinalBlanks]
  refine ⟨⟨front, back.reverse, ?_, ?_⟩, ?_, ?_⟩
  · rw [List.append_assoc, ← hrest]
    exact hfront
  · rw [List.forall_mem_append]
    exact ⟨hblank, by simpa using hblank'⟩
  · intro c hc
    obtain ⟨r, hr⟩ := List.head?_eq_some_iff.mp hc
    exact dropBlanks_head (hrest.trans (by rw [hr]; rfl) : dropBlanks s = c :: (r ++ back.reverse))
  · intro c hc
    rw [trimChars, dropFinalBlanks, List.getLast?_reverse] at hc
    obtain ⟨r, hr⟩ := List.head?_eq_some_iff.mp hc
    exact dropBlanks_head hr

theorem isTrimmed_iff : IsTrimmed s t ↔ trimChars s = t :=
  ⟨IsTrimmed.trimChars_eq, fun h => h ▸ isTrimmed_trimChars s⟩

/-- What is trimmed already is kept. -/
theorem trimChars_trimChars (s : List Char) : trimChars (trimChars s) = trimChars s := by
  obtain ⟨-, hhead, hlast⟩ := isTrimmed_trimChars s
  exact IsTrimmed.trimChars_eq ⟨⟨[], [], by simp, by simp⟩, hhead, hlast⟩

theorem trim_trim (s : String) : trim (trim s) = trim s := by
  rw [← String.toList_inj, toList_trim, toList_trim, trimChars_trimChars]

theorem trim_ofList (s : List Char) : trim (String.ofList s) = String.ofList (trimChars s) := by
  rw [trim, String.toList_ofList]

theorem trimChars_eq_nil_iff : trimChars s = [] ↔ ∀ c ∈ s, isBlank c = true := by
  rw [← isTrimmed_iff]
  constructor
  · rintro ⟨⟨front, back, rfl, hblank⟩, -, -⟩
    rwa [List.append_nil]
  · intro h
    exact ⟨⟨s, [], by simp, by simpa using h⟩, by simp, by simp⟩

/-! ## Case -/

/-- Texts that differ in the case of their letters only. -/
def SameButCase (s t : List Char) : Prop := s.map Char.toLower = t.map Char.toLower

instance (s t : List Char) : Decidable (SameButCase s t) :=
  inferInstanceAs (Decidable (s.map Char.toLower = t.map Char.toLower))

theorem sameButCase_iff_map_toUpper :
    SameButCase s t ↔ s.map Char.toUpper = t.map Char.toUpper := by
  have hupper : ∀ s : List Char, (s.map Char.toLower).map Char.toUpper = s.map Char.toUpper := by
    intro s
    rw [List.map_map]
    exact List.map_congr_left fun c _ => c.toUpper_toLower_eq_toUpper
  have hlower : ∀ s : List Char, (s.map Char.toUpper).map Char.toLower = s.map Char.toLower := by
    intro s
    rw [List.map_map]
    exact List.map_congr_left fun c _ => c.toLower_toUpper_eq_toLower
  constructor
  · intro h
    rw [← hupper s, ← hupper t, h]
  · intro h
    rw [SameButCase, ← hlower s, ← hlower t, h]

end LocaleServices.Text

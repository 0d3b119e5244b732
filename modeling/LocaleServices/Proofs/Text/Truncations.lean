import LocaleServices.Text.Pieces

/-!
  The truncations of a text.

  A truncation is the text itself or what stands before one of its separators
  (`mem_truncations_iff`). Each is a proper beginning of those before it
  (`pairwise_truncations`), and cutting on from one of them gives those behind it
  (`truncations_suffix`). There is one for each piece (`length_truncations_eq`).
-/

namespace LocaleServices.Text

variable {sep : Char}

/-! ## What follows a separator -/

/-- A remainder is an ending of the text with the separator right before it. -/
theorem mem_remainders_iff {s x : List Char} : x ∈ remainders sep s ↔ sep :: x <:+ s := by
  induction s with
  | nil => simp [remainders]
  | cons c r ih =>
    rw [List.suffix_cons_iff, ← ih, remainders, List.cons.injEq]
    by_cases hc : c = sep
    · rw [if_pos hc, List.mem_cons]
      simp [hc]
    · rw [if_neg hc]
      simp [Ne.symm hc]

theorem suffix_of_mem_remainders {s x : List Char} (h : x ∈ remainders sep s) :
    x <:+ s ∧ x ≠ s := by
  have hsep : sep :: x <:+ s := mem_remainders_iff.mp h
  refine ⟨(List.suffix_cons sep x).trans hsep, fun he => ?_⟩
  have hlength := hsep.length_le
  rw [he, List.length_cons] at hlength
  omega

theorem pairwise_remainders (sep : Char) (s : List Char) :
    (remainders sep s).Pairwise fun x y => y <:+ x ∧ y ≠ x := by
  induction s with
  | nil => exact List.Pairwise.nil
  | cons c r ih =>
    simp only [remainders]
    split
    · exact List.pairwise_cons.mpr ⟨fun y hy => suffix_of_mem_remainders hy, ih⟩
    · exact ih

/-- The remainders of a remainder are those behind it. -/
theorem remainders_suffix {s x : List Char} (h : x ∈ remainders sep s) :
    x :: remainders sep x <:+ remainders sep s := by
  induction s with
  | nil => simp [remainders] at h
  | cons c r ih =>
    rw [remainders] at h ⊢
    by_cases hc : c = sep
    · rw [if_pos hc] at h ⊢
      rcases List.mem_cons.mp h with rfl | h
      · exact List.suffix_rfl
      · exact (ih h).trans (List.suffix_cons r _)
    · rw [if_neg hc] at h ⊢
      exact ih h

/-! ## What stands before a separator -/

theorem mem_truncatedChars_iff {s p : List Char} :
    p ∈ truncatedChars sep s ↔ p = s ∨ p ++ [sep] <+: s := by
  have hcut : p ∈ (remainders sep s.reverse).map List.reverse ↔ p ++ [sep] <+: s := by
    rw [← List.reverse_suffix, List.reverse_append, List.reverse_singleton,
      List.singleton_append, ← mem_remainders_iff, List.mem_map]
    constructor
    · rintro ⟨x, hx, rfl⟩
      rwa [List.reverse_reverse]
    · intro h
      exact ⟨_, h, List.reverse_reverse p⟩
  rw [truncatedChars, List.mem_cons, hcut]

/-- The text itself or what stands before one of its separators. -/
theorem mem_truncations_iff {s p : String} :
    p ∈ truncations sep s ↔ s ≠ "" ∧ (p = s ∨ p.toList ++ [sep] <+: s.toList) := by
  by_cases hs : s = ""
  · simp [hs]
  have hchars : p ∈ truncations sep s ↔ p.toList ∈ truncatedChars sep s.toList := by
    rw [truncations_of_ne sep hs, List.mem_map]
    constructor
    · rintro ⟨x, hx, rfl⟩
      rwa [String.toList_ofList]
    · intro h
      exact ⟨p.toList, h, String.ofList_toList⟩
  rw [hchars, mem_truncatedChars_iff, String.toList_inj]
  simp [hs]

theorem self_mem_truncations {v : String} (sep : Char) (h : v ≠ "") : v ∈ truncations sep v :=
  mem_truncations_iff.mpr ⟨h, Or.inl rfl⟩

/-- Each truncation is a proper beginning of those before it. -/
theorem pairwise_truncations (sep : Char) (s : String) :
    (truncations sep s).Pairwise fun x y => y.toList <+: x.toList ∧ y ≠ x := by
  by_cases hs : s = ""
  · rw [hs]
    exact List.Pairwise.nil
  rw [truncations_of_ne sep hs, List.pairwise_map]
  have hchars : (truncatedChars sep s.toList).Pairwise fun x y => y <+: x ∧ y ≠ x := by
    refine List.pairwise_cons.mpr ⟨fun y hy => ?_, ?_⟩
    · obtain ⟨z, hz, rfl⟩ := List.mem_map.mp hy
      obtain ⟨hsuf, hne⟩ := suffix_of_mem_remainders hz
      refine ⟨?_, fun he => hne ?_⟩
      · rw [← List.reverse_reverse s.toList]
        exact List.reverse_prefix.mpr hsuf
      · rw [← he, List.reverse_reverse]
    · rw [List.pairwise_map]
      exact (pairwise_remainders sep _).imp fun h =>
        ⟨List.reverse_prefix.mpr h.1, fun he => h.2 (List.reverse_inj.mp he)⟩
  exact hchars.imp fun h =>
    ⟨by simpa only [String.toList_ofList] using h.1, fun he => h.2 (String.ofList_inj.mp he)⟩

theorem truncatedChars_suffix {s p : List Char} (h : p ∈ truncatedChars sep s) :
    truncatedChars sep p <:+ truncatedChars sep s := by
  rcases List.mem_cons.mp h with rfl | h
  · exact List.suffix_rfl
  · obtain ⟨x, hx, rfl⟩ := List.mem_map.mp h
    have hrest := (remainders_suffix hx).map List.reverse
    rw [truncatedChars, List.reverse_reverse]
    exact hrest.trans (List.suffix_cons s _)

/-- Cutting on from a truncation gives the truncations behind it. -/
theorem truncations_suffix {s p : String} (h : p ∈ truncations sep s) :
    truncations sep p <:+ truncations sep s := by
  by_cases hp : p = ""
  · rw [hp]
    exact List.nil_suffix
  have hs : s ≠ "" := (mem_truncations_iff.mp h).1
  rw [truncations_of_ne sep hs] at h ⊢
  rw [truncations_of_ne sep hp]
  obtain ⟨x, hx, rfl⟩ := List.mem_map.mp h
  rw [String.toList_ofList]
  exact (truncatedChars_suffix hx).map String.ofList

/-! ## How many there are -/

/-- How many pieces a text has between its separators; none for the empty text. -/
def pieceCount (sep : Char) (s : String) : Nat :=
  if s = "" then 0 else s.toList.count sep + 1

theorem length_truncations_eq (sep : Char) (s : String) :
    (truncations sep s).length = pieceCount sep s := by
  unfold pieceCount
  split
  · rename_i hs
    rw [hs]
    rfl
  · rename_i hs
    exact length_truncations sep hs

end LocaleServices.Text

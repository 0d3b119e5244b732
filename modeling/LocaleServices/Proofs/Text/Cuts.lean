import LocaleServices.Text.Pieces

/-!
  What it is to cut a text at its separators.

  `IsCut isSep s ps` says that `s` is the texts `ps` with one separator between each two of
  them, and that none of them has a separator inside. Every text has exactly one such cut,
  and `pieceChars` finds it (`isCut_iff`). The pieces on both sides of a separator are found
  apart from each other (`pieceChars_append`). Joining undoes the cut (`IsCut.intercalate_eq`,
  `isCut_intercalate`). `upTo` and `beyond` are the two sides of the first separator.
-/

namespace LocaleServices.Text

/-- A text and its pieces between separators. -/
inductive IsCut (isSep : Char → Bool) : List Char → List (List Char) → Prop
  | whole {p : List Char} (hp : ∀ c ∈ p, isSep c = false) : IsCut isSep p [p]
  | next {p r : List Char} {c : Char} {ps : List (List Char)} (hp : ∀ x ∈ p, isSep x = false)
      (hc : isSep c = true) (hr : IsCut isSep r ps) : IsCut isSep (p ++ c :: r) (p :: ps)

variable {isSep : Char → Bool}

theorem pieceChars_of_free {p : List Char} (hp : ∀ c ∈ p, isSep c = false) :
    pieceChars isSep p = [p] := by
  induction p with
  | nil => rfl
  | cons c r ih =>
    obtain ⟨hc, hr⟩ := List.forall_mem_cons.mp hp
    simp [pieceChars, hc, ih hr, prependTo]

theorem prependTo_append (c : Char) {ps : List (List Char)} (h : ps ≠ [])
    (qs : List (List Char)) : prependTo c (ps ++ qs) = prependTo c ps ++ qs := by
  cases ps with
  | nil => exact absurd rfl h
  | cons p ps => rfl

/-- A separator parts the pieces before it from those behind it. -/
theorem pieceChars_append {c : Char} (hc : isSep c = true) (s t : List Char) :
    pieceChars isSep (s ++ c :: t) = pieceChars isSep s ++ pieceChars isSep t := by
  induction s with
  | nil => simp [pieceChars, hc]
  | cons d s ih =>
    rw [List.cons_append, pieceChars, pieceChars, ih]
    split
    · rfl
    · exact prependTo_append d (pieceChars_ne_nil isSep s) _

theorem IsCut.prependTo {c : Char} (hc : isSep c = false) {s : List Char}
    {ps : List (List Char)} (h : IsCut isSep s ps) :
    IsCut isSep (c :: s) (Text.prependTo c ps) := by
  cases h with
  | whole hp => exact .whole (List.forall_mem_cons.mpr ⟨hc, hp⟩)
  | next hp hd hr => exact .next (List.forall_mem_cons.mpr ⟨hc, hp⟩) hd hr

theorem isCut_pieceChars (s : List Char) : IsCut isSep s (pieceChars isSep s) := by
  induction s with
  | nil => exact .whole (by simp)
  | cons c r ih =>
    rw [pieceChars]
    split
    · rename_i hc
      have hnone : ∀ x ∈ ([] : List Char), isSep x = false := by simp
      exact .next hnone hc ih
    · rename_i hc
      exact ih.prependTo (Bool.not_eq_true _ ▸ hc)

/-- A text has one cut. -/
theorem isCut_iff {s : List Char} {ps : List (List Char)} :
    IsCut isSep s ps ↔ ps = pieceChars isSep s := by
  constructor
  · intro h
    induction h with
    | whole hp => exact (pieceChars_of_free hp).symm
    | next hp hc _ ih => rw [pieceChars_append hc, pieceChars_of_free hp, ih, List.singleton_append]
  · rintro rfl
    exact isCut_pieceChars s

/-- The pieces are free of separators. -/
theorem IsCut.not_isSep {s : List Char} {ps : List (List Char)} (h : IsCut isSep s ps) :
    ∀ p ∈ ps, ∀ c ∈ p, isSep c = false := by
  induction h with
  | whole hp => exact List.forall_mem_cons.mpr ⟨hp, by simp⟩
  | next hp _ _ ih => exact List.forall_mem_cons.mpr ⟨hp, ih⟩

/-- A character of a text is a separator or in one of the pieces. -/
theorem IsCut.isSep_or_mem {s : List Char} {ps : List (List Char)} (h : IsCut isSep s ps)
    {c : Char} (hc : c ∈ s) : isSep c = true ∨ ∃ p ∈ ps, c ∈ p := by
  induction h with
  | whole _ => exact Or.inr ⟨_, List.mem_cons_self, hc⟩
  | next _ hsep _ ih =>
    rcases List.mem_append.mp hc with hp | hr
    · exact Or.inr ⟨_, List.mem_cons_self, hp⟩
    · rcases List.mem_cons.mp hr with rfl | hr
      · exact Or.inl hsep
      · exact (ih hr).imp_right fun ⟨p, hp, hcp⟩ => ⟨p, List.mem_cons_of_mem _ hp, hcp⟩

/-! ## Joining -/

theorem not_isSep_of_notMem {sep : Char} {p : List Char} (h : sep ∉ p) :
    ∀ c ∈ p, decide (c = sep) = false :=
  fun _ hc => decide_eq_false fun he => h (he ▸ hc)

/-- Joining the pieces of a cut gives the text. -/
theorem IsCut.intercalate_eq {sep : Char} {s : List Char} {ps : List (List Char)}
    (h : IsCut (· = sep) s ps) : [sep].intercalate ps = s := by
  induction h with
  | whole => exact List.intercalate_singleton
  | @next p r c ps _ hc hr ih =>
    obtain rfl : c = sep := of_decide_eq_true hc
    cases ps with
    | nil => cases hr
    | cons q qs =>
      rw [List.intercalate_cons_cons, ih, List.append_assoc, List.singleton_append]

/-- Pieces without a separator are those of the joined text. -/
theorem isCut_intercalate {sep : Char} {ps : List (List Char)} (h : ps ≠ [])
    (hfree : ∀ p ∈ ps, sep ∉ p) : IsCut (· = sep) ([sep].intercalate ps) ps := by
  induction ps with
  | nil => exact absurd rfl h
  | cons p ps ih =>
    obtain ⟨hp, hps⟩ := List.forall_mem_cons.mp hfree
    have hp' := not_isSep_of_notMem hp
    cases ps with
    | nil =>
      rw [List.intercalate_singleton]
      exact .whole hp'
    | cons q qs =>
      rw [List.intercalate_cons_cons, List.append_assoc, List.singleton_append]
      exact .next hp' (decide_eq_true rfl) (ih (List.cons_ne_nil q qs) hps)

/-! ## The first separator -/

/-- What stands before the first separator, or the whole text without one. -/
def upTo (sep : Char) (s : List Char) : List Char := s.takeWhile (· ≠ sep)

/-- What stands behind the first separator, or nothing without one. -/
def beyond (sep : Char) (s : List Char) : List Char := (s.dropWhile (· ≠ sep)).drop 1

section FirstSeparator

variable {sep : Char} {s : List Char}

theorem differs_of_notMem (h : sep ∉ s) : ∀ c ∈ s, decide (c ≠ sep) = true := by
  intro c hc
  exact decide_eq_true fun he => h (he ▸ hc)

theorem upTo_append (h : sep ∉ s) (t : List Char) : upTo sep (s ++ sep :: t) = s := by
  unfold upTo
  rw [List.takeWhile_append_of_pos (differs_of_notMem h), List.takeWhile_cons_of_neg (by simp),
    List.append_nil]

theorem beyond_append (h : sep ∉ s) (t : List Char) : beyond sep (s ++ sep :: t) = t := by
  unfold beyond
  rw [List.dropWhile_append_of_pos (differs_of_notMem h), List.dropWhile_cons_of_neg (by simp)]
  rfl

theorem upTo_of_notMem (h : sep ∉ s) : upTo sep s = s := by
  unfold upTo
  rw [← List.append_nil s, List.takeWhile_append_of_pos (differs_of_notMem h), List.takeWhile_nil]

theorem beyond_of_notMem (h : sep ∉ s) : beyond sep s = [] := by
  unfold beyond
  rw [← List.append_nil s, List.dropWhile_append_of_pos (differs_of_notMem h), List.dropWhile_nil]
  rfl

end FirstSeparator

end LocaleServices.Text

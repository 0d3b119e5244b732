import Mathlib.Data.List.Induction

/-!
  What a run of steps leaves behind.

  A state is seen through a view, and every step of a run either writes what the view shows
  or leaves it alone. After the run the view shows what the last writing step wrote, and what
  it showed before when no step writes (`view_foldl`). `findRev?` finds that step; it is the
  one with no writing step behind it (`findRev?_eq_some_iff_append`). Of a list that takes
  up what is not in it yet, first mentions are left (`eraseDups_concat`).
-/

namespace LocaleServices

variable {σ ε α : Type}

/-! ## The last entry with a property -/

section FindRev

variable {p : ε → Bool} {xs : List ε} {x : ε}

theorem findRev?_concat (p : ε → Bool) (xs : List ε) (x : ε) :
    (xs ++ [x]).findRev? p = if p x then some x else xs.findRev? p := by
  rw [List.findRev?_eq_find?_reverse, List.findRev?_eq_find?_reverse, List.reverse_append,
    List.reverse_singleton, List.singleton_append, List.find?_cons]
  cases p x <;> rfl

theorem findRev?_eq_none_iff : xs.findRev? p = none ↔ ∀ x ∈ xs, p x = false := by
  simp only [List.findRev?_eq_find?_reverse, List.find?_eq_none, List.mem_reverse,
    Bool.not_eq_true]

/-- The last entry with a property has none with it behind it. -/
theorem findRev?_eq_some_iff_append :
    xs.findRev? p = some x ↔
      p x = true ∧ ∃ before after, xs = before ++ x :: after ∧ ∀ y ∈ after, p y = false := by
  rw [List.findRev?_eq_find?_reverse, List.find?_eq_some_iff_append]
  constructor
  · rintro ⟨hx, later, earlier, hxs, hlater⟩
    refine ⟨hx, earlier.reverse, later.reverse, ?_, fun y hy => ?_⟩
    · rw [← List.reverse_reverse xs, hxs]
      simp
    · simpa using hlater y (List.mem_reverse.mp hy)
  · rintro ⟨hx, before, after, rfl, hafter⟩
    refine ⟨hx, after.reverse, before.reverse, by simp, fun y hy => ?_⟩
    simp [hafter y (List.mem_reverse.mp hy)]

end FindRev

/-! ## First mentions -/

theorem eraseDups_concat [DecidableEq ε] (xs : List ε) (x : ε) :
    (xs ++ [x]).eraseDups = if x ∈ xs then xs.eraseDups else xs.eraseDups ++ [x] := by
  rw [List.eraseDups_append]
  split
  · rename_i h
    simp [List.removeAll, h]
  · rename_i h
    simp [List.removeAll, h, List.eraseDups_cons]

/-! ## Runs -/

/-- The last write stands, and without a write what was there before. -/
theorem view_foldl (view : σ → α) {step : σ → ε → σ} {writes : ε → Bool} {written : ε → α}
    (hstep : ∀ s e, view (step s e) = if writes e then written e else view s) (s : σ)
    (es : List ε) :
    view (es.foldl step s) = ((es.findRev? writes).map written).getD (view s) := by
  induction es using List.reverseRecOn with
  | nil => rfl
  | append_singleton es e ih =>
    rw [List.foldl_append, List.foldl_cons, List.foldl_nil, hstep, findRev?_concat]
    split
    · rfl
    · exact ih

end LocaleServices

/-!
  Ascending lists without repetition, as canonical forms of finite sets.

  `insert` puts a value in its place unless it is there, and `ofList` sorts a list and drops
  repetitions. The members stay the same (`mem_ofList`) and the result is strictly ascending
  (`pairwise_ofList`), so equal sets have one form (`eq_of_mem_iff`).
-/

namespace LocaleServices.Ascending

variable {α : Type} [Ord α]

/-- Puts a value in its place in an ascending list, unless it is there. -/
def insert (a : α) : List α → List α
  | [] => [a]
  | b :: r =>
    match compare a b with
    | .lt => a :: b :: r
    | .eq => b :: r
    | .gt => b :: insert a r

/-- The values of a list in ascending order, each once. -/
def ofList (l : List α) : List α :=
  l.foldr insert []

@[simp] theorem ofList_nil : ofList ([] : List α) = [] := rfl

@[simp] theorem ofList_cons (a : α) (l : List α) : ofList (a :: l) = insert a (ofList l) := rfl

variable [Std.LawfulEqOrd α]

theorem mem_insert {a x : α} {l : List α} : x ∈ insert a l ↔ x = a ∨ x ∈ l := by
  induction l with
  | nil => simp [insert]
  | cons b r ih =>
    simp only [insert]
    split
    · simp
    · rename_i h
      have hab : a = b := Std.LawfulEqCmp.eq_of_compare h
      subst hab
      simp
    · simp only [List.mem_cons, ih]
      exact or_left_comm

theorem mem_ofList {x : α} {l : List α} : x ∈ ofList l ↔ x ∈ l := by
  induction l with
  | nil => simp
  | cons a r ih => simp [mem_insert, ih]

variable [Std.TransOrd α]

theorem pairwise_insert {a : α} {l : List α} (h : l.Pairwise (compare · · = .lt)) :
    (insert a l).Pairwise (compare · · = .lt) := by
  induction l with
  | nil => simp [insert]
  | cons b r ih =>
    obtain ⟨hb, hr⟩ := List.pairwise_cons.mp h
    simp only [insert]
    split
    · rename_i hlt
      refine List.pairwise_cons.mpr ⟨fun x hx => ?_, h⟩
      rcases List.mem_cons.mp hx with rfl | hx
      · exact hlt
      · exact Std.TransCmp.lt_trans hlt (hb x hx)
    · exact h
    · rename_i hgt
      refine List.pairwise_cons.mpr ⟨fun x hx => ?_, ih hr⟩
      rcases mem_insert.mp hx with rfl | hx
      · exact Std.OrientedCmp.lt_of_gt hgt
      · exact hb x hx

theorem pairwise_ofList (l : List α) : (ofList l).Pairwise (compare · · = .lt) := by
  induction l with
  | nil => exact List.Pairwise.nil
  | cons a r ih => exact pairwise_insert ih

/-- Strictly ascending lists are known by their members. -/
theorem eq_of_mem_iff {l m : List α} (hl : l.Pairwise (compare · · = .lt))
    (hm : m.Pairwise (compare · · = .lt)) (h : ∀ x, x ∈ l ↔ x ∈ m) : l = m := by
  have hnodup : ∀ {k : List α}, k.Pairwise (compare · · = .lt) → k.Nodup := by
    intro k hk
    refine hk.imp fun {a b} hab he => ?_
    rw [he, Std.ReflOrd.compare_self] at hab
    cases hab
  have hperm : l.Perm m := (List.perm_ext_iff_of_nodup (hnodup hl) (hnodup hm)).mpr h
  refine hperm.eq_of_pairwise (fun a b _ _ hab hba => ?_) hl hm
  exact absurd hba (Std.OrientedCmp.not_lt_of_lt hab)

end LocaleServices.Ascending

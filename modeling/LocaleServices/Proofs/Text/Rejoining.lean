import LocaleServices.Proofs.Text.Cuts
import LocaleServices.Proofs.Text.Truncations

/-!
  Truncations as joined pieces.

  `CutsDown sep s out` is a run that gives out `s`, cuts it at its last separator and goes on
  with what stands before, until there is no separator left. Each text has exactly one such
  run, with its truncations for output (`cutsDown_iff`): what is left gets shorter with each
  cut. The output is told by the pieces between the separators alone: all of them joined
  again, then one less each time (`truncatedChars_eq_leftJoins`). Main statement:
  `truncations_rejoin`.
-/

namespace LocaleServices.Text

variable {sep : Char} {s : List Char}

/-! ## Cutting down -/

/-- A run of cuts at the last separator, with what is left after each. -/
inductive CutsDown (sep : Char) : List Char → List (List Char) → Prop
  | whole {s : List Char} (hs : sep ∉ s) : CutsDown sep s [s]
  | cut {p q : List Char} {out : List (List Char)} (hq : sep ∉ q) (hp : CutsDown sep p out) :
      CutsDown sep (p ++ sep :: q) ((p ++ sep :: q) :: out)

theorem remainders_of_notMem (h : sep ∉ s) : remainders sep s = [] := by
  rw [← List.length_eq_zero_iff, length_remainders]
  exact List.count_eq_zero.mpr h

/-- The first separator parts the first remainder from what gives none. -/
theorem remainders_append {q : List Char} (hq : sep ∉ q) (p : List Char) :
    remainders sep (q ++ sep :: p) = p :: remainders sep p := by
  induction q with
  | nil => rw [List.nil_append, remainders, if_pos rfl]
  | cons c q ih =>
    obtain ⟨hc, hrest⟩ := not_or.mp (mt List.mem_cons.mpr hq)
    rw [List.cons_append, remainders, if_neg (Ne.symm hc), ih hrest]

theorem truncatedChars_of_notMem (h : sep ∉ s) : truncatedChars sep s = [s] := by
  rw [truncatedChars, remainders_of_notMem (mt List.mem_reverse.mp h), List.map_nil]

/-- Behind the text itself come the truncations of what stands before its last separator. -/
theorem truncatedChars_append {q : List Char} (hq : sep ∉ q) (p : List Char) :
    truncatedChars sep (p ++ sep :: q) = (p ++ sep :: q) :: truncatedChars sep p := by
  have hreverse : (p ++ sep :: q).reverse = q.reverse ++ sep :: p.reverse := by simp
  rw [truncatedChars, hreverse, remainders_append (mt List.mem_reverse.mp hq), List.map_cons,
    List.reverse_reverse, truncatedChars]

theorem exists_last_separator (h : sep ∈ s) : ∃ p q, s = p ++ sep :: q ∧ sep ∉ q := by
  obtain ⟨q, p, hs, hq⟩ := List.eq_append_cons_of_mem (List.mem_reverse.mpr h)
  refine ⟨p.reverse, q.reverse, ?_, mt List.mem_reverse.mp hq⟩
  rw [← List.reverse_reverse s, hs]
  simp

/-- Cutting ends, since what stands before a separator is shorter. -/
theorem cutsDown_truncatedChars (sep : Char) (s : List Char) :
    CutsDown sep s (truncatedChars sep s) := by
  by_cases h : sep ∈ s
  · obtain ⟨p, q, hs, hq⟩ := exists_last_separator h
    have hshorter : p.length < s.length := by
      rw [hs, List.length_append, List.length_cons]
      omega
    rw [hs, truncatedChars_append hq]
    exact .cut hq (cutsDown_truncatedChars sep p)
  · rw [truncatedChars_of_notMem h]
    exact .whole h
termination_by s.length

/-- A text is cut down in one way. -/
theorem cutsDown_iff {out : List (List Char)} :
    CutsDown sep s out ↔ out = truncatedChars sep s := by
  constructor
  · intro h
    induction h with
    | whole hs => exact (truncatedChars_of_notMem hs).symm
    | cut hq _ ih => rw [truncatedChars_append hq, ih]
  · rintro rfl
    exact cutsDown_truncatedChars sep s

/-! ## Joining fewer and fewer pieces -/

/-- All pieces joined, then all but the last one, and so on to the first alone. -/
def leftJoins (sep : Char) (ps : List (List Char)) : List (List Char) :=
  (List.range ps.length).map fun i => [sep].intercalate (ps.take (ps.length - i))

theorem leftJoins_concat (sep : Char) (ps : List (List Char)) (q : List Char) :
    leftJoins sep (ps ++ [q]) = [sep].intercalate (ps ++ [q]) :: leftJoins sep ps := by
  have hlength : (ps ++ [q]).length = ps.length + 1 := by simp
  rw [leftJoins, hlength, List.range_succ_eq_map, List.map_cons, List.map_map, Nat.sub_zero,
    ← hlength, List.take_length]
  refine congrArg (List.cons _) (List.map_congr_left fun i _ => ?_)
  have hi : (ps ++ [q]).length - (i + 1) = ps.length - i := by omega
  rw [Function.comp_apply, Nat.succ_eq_add_one, hi,
    List.take_append_of_le_length (Nat.sub_le ps.length i)]

/-- The piece behind the last separator is the last piece. -/
theorem pieceChars_concat {q : List Char} (hq : sep ∉ q) (p : List Char) :
    pieceChars (· = sep) (p ++ sep :: q) = pieceChars (· = sep) p ++ [q] := by
  rw [pieceChars_append (decide_eq_true rfl), pieceChars_of_free (not_isSep_of_notMem hq)]

theorem truncatedChars_eq_leftJoins (sep : Char) (s : List Char) :
    truncatedChars sep s = leftJoins sep (pieceChars (· = sep) s) := by
  -- By induction on the run: each cut takes away the last piece.
  have hrun := cutsDown_truncatedChars sep s
  generalize truncatedChars sep s = out at hrun
  induction hrun with
  | @whole s hs =>
    rw [pieceChars_of_free (not_isSep_of_notMem hs)]
    simp [leftJoins]
  | @cut p q out hq _ ih =>
    rw [pieceChars_concat hq, leftJoins_concat, ← ih, ← pieceChars_concat hq,
      (isCut_pieceChars _).intercalate_eq]

/-! ## Texts -/

theorem intercalate_map_ofList (ps : List (List Char)) :
    "_".intercalate (ps.map String.ofList) = String.ofList (['_'].intercalate ps) := by
  have hps : (ps.map String.ofList).map String.toList = ps := by
    simp [Function.comp_def, String.toList_ofList]
  have hsep : "_".toList = ['_'] := by decide
  rw [← String.toList_inj, String.toList_intercalate, hps, hsep]
  exact String.toList_ofList.symm

/-- Cutting a variant down ends, and gives its first pieces joined, one less each time. The
    empty variant gives nothing. Any other one is the pieces between its `_`, empty ones
    included, joined by `_`; what it is cut down to is all pieces joined, then all but the
    last, and so on to the first alone, and each of these is a proper beginning of those
    before it. -/
theorem truncations_rejoin (v : String) :
    truncations '_' "" = [] ∧
    (v ≠ "" →
      (∀ out, CutsDown '_' v.toList out ↔ out.map String.ofList = truncations '_' v) ∧
      let ps := pieces (· = '_') v
      "_".intercalate ps = v ∧ (∀ p ∈ ps, '_' ∉ p.toList) ∧
        truncations '_' v =
          (List.range ps.length).map (fun i => "_".intercalate (ps.take (ps.length - i))) ∧
        (truncations '_' v).Pairwise fun x y => y.toList <+: x.toList ∧ y ≠ x) := by
  refine ⟨rfl, fun hv => ⟨fun out => ?_, ?_, ?_, ?_, pairwise_truncations '_' v⟩⟩
  · rw [cutsDown_iff, truncations_of_ne '_' hv,
      List.map_inj_right fun {a b} h => String.ofList_inj.mp h]
  · rw [pieces, intercalate_map_ofList, (isCut_pieceChars _).intercalate_eq, String.ofList_toList]
  · intro p hp hmem
    obtain ⟨q, hq, rfl⟩ := List.mem_map.mp hp
    rw [String.toList_ofList] at hmem
    simpa using (isCut_pieceChars _).not_isSep q hq '_' hmem
  · rw [truncations_of_ne '_' hv, truncatedChars_eq_leftJoins, leftJoins, List.map_map, pieces,
      List.length_map]
    refine List.map_congr_left fun i _ => ?_
    rw [Function.comp_apply, ← intercalate_map_ofList, List.map_take]

/-- Underscores in front, doubled and at the end make empty pieces, which count like others. -/
theorem truncations_rejoin_underscores :
    let v := "_A__B_"
    let ps := ["", "A", "", "B", ""]
    v ≠ "" ∧ pieces (· = '_') v = ps ∧ "_".intercalate ps = v ∧ (∀ p ∈ ps, '_' ∉ p.toList) ∧
      CutsDown '_' v.toList (["_A__B_", "_A__B", "_A_", "_A", ""].map String.toList) ∧
      truncations '_' v = [ps, ps.take 4, ps.take 3, ps.take 2, ps.take 1].map "_".intercalate := by
  intro v ps
  have hv : v ≠ "" := by decide
  have hps : pieces (· = '_') v = ps := by decide
  obtain ⟨-, hcuts⟩ := truncations_rejoin v
  obtain ⟨hrun, hjoin, hfree, hjoins, -⟩ := hcuts hv
  rw [hps] at hjoin hfree hjoins
  exact ⟨hv, hps, hjoin, hfree, (hrun _).mpr (by decide), hjoins⟩

end LocaleServices.Text

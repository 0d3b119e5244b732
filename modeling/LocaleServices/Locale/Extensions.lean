import LocaleServices.Text.Case

/-!
  Extension subtags of a locale, as a finite map from single characters to texts.

  The entries stand in ascending order of their keys, so two maps with the same answers are
  equal (`ext_find?`). `insert` and `erase` change the answer for one key only
  (`find?_insert`, `find?_erase`).
-/

namespace LocaleServices

structure Extension where
  key : Char
  value : String
deriving DecidableEq

namespace Extension

/-- Puts an extension in its place, over an earlier one with the same key. -/
def putIn (e : Extension) : List Extension → List Extension
  | [] => [e]
  | f :: r =>
    if e.key < f.key then e :: f :: r
    else if e.key = f.key then e :: r
    else f :: putIn e r

/-- Leaves out the extension with this key. -/
def dropFrom (k : Char) (l : List Extension) : List Extension :=
  l.filter fun e => e.key ≠ k

/-- The value of the first extension with this key. -/
def findIn (k : Char) : List Extension → Option String
  | [] => none
  | e :: r => if e.key = k then some e.value else findIn k r

theorem mem_putIn {e f : Extension} {l : List Extension} (h : f ∈ putIn e l) :
    f = e ∨ f ∈ l := by
  induction l with
  | nil => simpa [putIn] using h
  | cons g r ih =>
    simp only [putIn] at h
    split at h
    · simpa using h
    · split at h
      · rcases List.mem_cons.mp h with h | h
        · exact Or.inl h
        · exact Or.inr (List.mem_cons_of_mem _ h)
      · rcases List.mem_cons.mp h with h | h
        · exact Or.inr (h ▸ List.mem_cons_self)
        · exact (ih h).imp id (List.mem_cons_of_mem _)

theorem pairwise_putIn {e : Extension} {l : List Extension}
    (h : l.Pairwise (·.key < ·.key)) : (putIn e l).Pairwise (·.key < ·.key) := by
  induction l with
  | nil => simp [putIn]
  | cons f r ih =>
    obtain ⟨hf, hr⟩ := List.pairwise_cons.mp h
    simp only [putIn]
    split
    · rename_i hlt
      refine List.pairwise_cons.mpr ⟨fun g hg => ?_, h⟩
      rcases List.mem_cons.mp hg with rfl | hg
      · exact hlt
      · exact Char.lt_trans hlt (hf g hg)
    · split
      · rename_i heq
        exact List.pairwise_cons.mpr ⟨fun g hg => heq ▸ hf g hg, hr⟩
      · rename_i hlt hne
        refine List.pairwise_cons.mpr ⟨fun g hg => ?_, ih hr⟩
        rcases mem_putIn hg with rfl | hg
        · exact Std.lt_of_le_of_ne (Char.not_lt.mp hlt) fun he => hne he.symm
        · exact hf g hg

theorem findIn_putIn (e : Extension) (k : Char) (l : List Extension) :
    findIn k (putIn e l) = if e.key = k then some e.value else findIn k l := by
  induction l with
  | nil => simp [putIn, findIn]
  | cons f r ih =>
    simp only [putIn]
    split
    · simp [findIn]
    · split
      · rename_i heq
        by_cases hk : e.key = k
        · simp [findIn, hk]
        · have : f.key ≠ k := fun h => hk (heq.trans h)
          simp [findIn, hk, this]
      · rename_i hne
        by_cases hk : f.key = k
        · have : e.key ≠ k := fun h => hne (h.trans hk.symm)
          simp [findIn, hk, this]
        · simp [findIn, hk, ih]

theorem findIn_dropFrom (k q : Char) (l : List Extension) :
    findIn q (dropFrom k l) = if k = q then none else findIn q l := by
  induction l with
  | nil => simp [dropFrom, findIn]
  | cons e r ih =>
    unfold dropFrom at ih ⊢
    by_cases he : e.key = k
    · rw [List.filter_cons_of_neg (by simp [he]), ih]
      by_cases hq : k = q
      · simp [hq]
      · have : e.key ≠ q := fun h => hq (he.symm.trans h)
        simp [findIn, hq, this]
    · rw [List.filter_cons_of_pos (by simp [he])]
      by_cases hq : e.key = q
      · have : k ≠ q := fun h => he (hq.trans h.symm)
        simp [findIn, hq, this]
      · rw [findIn, if_neg hq, ih, findIn, if_neg hq]

theorem findIn_eq_none {k : Char} {l : List Extension} (h : ∀ e ∈ l, e.key ≠ k) :
    findIn k l = none := by
  induction l with
  | nil => rfl
  | cons e r ih =>
    have hr := ih fun f hf => h f (List.mem_cons_of_mem _ hf)
    simp [findIn, h e List.mem_cons_self, hr]

/-- A list in ascending order is known by its answers. -/
theorem eq_of_findIn {l m : List Extension} (hl : l.Pairwise (·.key < ·.key))
    (hm : m.Pairwise (·.key < ·.key)) (h : ∀ k, findIn k l = findIn k m) : l = m := by
  induction l generalizing m with
  | nil =>
    cases m with
    | nil => rfl
    | cons f s => simpa [findIn] using h f.key
  | cons e r ih =>
    cases m with
    | nil => simpa [findIn] using h e.key
    | cons f s =>
      obtain ⟨he, hr⟩ := List.pairwise_cons.mp hl
      obtain ⟨hf, hs⟩ := List.pairwise_cons.mp hm
      have absent : ∀ {k : Char} {x : Extension} {t : List Extension}, k < x.key →
          (∀ y ∈ t, x.key < y.key) → findIn k (x :: t) = none := by
        intro k x t hk ht
        refine findIn_eq_none fun y hy => ?_
        rcases List.mem_cons.mp hy with rfl | hy
        · exact fun heq => Char.lt_irrefl _ (heq ▸ hk)
        · exact fun heq => Char.lt_irrefl _ (heq ▸ Char.lt_trans hk (ht y hy))
      have hkey : e.key = f.key := by
        rcases Char.le_total e.key f.key with hle | hle
        · refine Classical.byContradiction fun hne => ?_
          have := h e.key
          rw [absent (Std.lt_of_le_of_ne hle hne) hf] at this
          simp [findIn] at this
        · refine Classical.byContradiction fun hne => ?_
          have := h f.key
          rw [absent (Std.lt_of_le_of_ne hle fun heq => hne heq.symm) he] at this
          simp [findIn] at this
      have hval : e.value = f.value := by
        have := h e.key
        simpa [findIn, hkey] using this
      have hef : e = f := by
        cases e
        cases f
        simp_all
      subst hef
      congr 1
      refine ih hr hs fun k => ?_
      by_cases hk : e.key = k
      · subst hk
        rw [findIn_eq_none fun y hy heq => Char.lt_irrefl _ (heq ▸ he y hy),
          findIn_eq_none fun y hy heq => Char.lt_irrefl _ (heq ▸ hf y hy)]
      · simpa [findIn, hk] using h k

end Extension

/-- Extensions in ascending order of their keys. -/
structure Extensions where
  entries : List Extension
  ascending : entries.Pairwise (·.key < ·.key)
deriving DecidableEq

namespace Extensions

def empty : Extensions := ⟨[], List.Pairwise.nil⟩

def single (k : Char) (v : String) : Extensions := ⟨[⟨k, v⟩], List.pairwise_singleton _ _⟩

def isEmpty (x : Extensions) : Bool := x.entries.isEmpty

def find? (x : Extensions) (k : Char) : Option String := Extension.findIn k x.entries

def insert (x : Extensions) (k : Char) (v : String) : Extensions :=
  ⟨Extension.putIn ⟨k, v⟩ x.entries, Extension.pairwise_putIn x.ascending⟩

def erase (x : Extensions) (k : Char) : Extensions :=
  ⟨Extension.dropFrom k x.entries, x.ascending.filter _⟩

/-- The extensions as one text, as in `ca-japanese` under `u` giving `u-ca-japanese`. -/
def text (x : Extensions) : String :=
  "-".intercalate (x.entries.map fun e => e.key.toString ++ "-" ++ e.value)

@[simp] theorem find?_empty (k : Char) : empty.find? k = none := rfl

theorem find?_insert (x : Extensions) (k q : Char) (v : String) :
    (x.insert k v).find? q = if k = q then some v else x.find? q :=
  Extension.findIn_putIn ⟨k, v⟩ q x.entries

theorem find?_erase (x : Extensions) (k q : Char) :
    (x.erase k).find? q = if k = q then none else x.find? q :=
  Extension.findIn_dropFrom k q x.entries

theorem ext_find? {x y : Extensions} (h : ∀ k, x.find? k = y.find? k) : x = y := by
  cases x with
  | mk l hl =>
    cases y with
    | mk m hm =>
      congr 1
      exact Extension.eq_of_findIn hl hm h

end Extensions

end LocaleServices

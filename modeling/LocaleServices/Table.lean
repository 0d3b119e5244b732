/-!
  Tables: values under keys, in the order in which the keys first came.

  `insert` replaces the value of a key that is there and appends a new key. The one law of
  the view `find?` is `find?_insert`: inserting changes the answer for that key and for no
  other. Keys stay distinct (`nodup_keys_insert`). `total` adds up a number for each value,
  and inserting exchanges one summand (`total_insert`).
-/

namespace LocaleServices

structure Table (κ ν : Type) where
  entries : List (κ × ν)

namespace Table

variable {κ ν : Type}

def empty : Table κ ν := ⟨[]⟩

def keys (t : Table κ ν) : List κ := t.entries.map Prod.fst

def values (t : Table κ ν) : List ν := t.entries.map Prod.snd

def size (t : Table κ ν) : Nat := t.entries.length

/-- The sum of a number for each value of some entries. -/
def totalIn (f : ν → Nat) : List (κ × ν) → Nat
  | [] => 0
  | (_, v) :: r => f v + totalIn f r

/-- The sum of a number for each value. -/
def total (f : ν → Nat) (t : Table κ ν) : Nat := totalIn f t.entries

theorem total_eq_zero {f : ν → Nat} (h : ∀ v, f v = 0) (t : Table κ ν) : t.total f = 0 := by
  unfold total
  induction t.entries with
  | nil => rfl
  | cons e r ih => rw [totalIn, h, ih]

variable [DecidableEq κ]

/-- The value of the first entry with this key. -/
def findIn (k : κ) : List (κ × ν) → Option ν
  | [] => none
  | (k', v) :: r => if k' = k then some v else findIn k r

/-- Replaces the value in place, or appends the entry. -/
def putIn (k : κ) (v : ν) : List (κ × ν) → List (κ × ν)
  | [] => [(k, v)]
  | (k', v') :: r => if k' = k then (k, v) :: r else (k', v') :: putIn k v r

def find? (t : Table κ ν) (k : κ) : Option ν := findIn k t.entries

def insert (t : Table κ ν) (k : κ) (v : ν) : Table κ ν := ⟨putIn k v t.entries⟩

def contains (t : Table κ ν) (k : κ) : Bool := (t.find? k).isSome

/-! ## Laws -/

theorem findIn_putIn (k q : κ) (v : ν) (l : List (κ × ν)) :
    findIn q (putIn k v l) = if k = q then some v else findIn q l := by
  induction l with
  | nil => simp [putIn, findIn]
  | cons e r ih =>
    obtain ⟨k', v'⟩ := e
    by_cases h : k' = k
    · by_cases hq : k = q
      · simp [putIn, findIn, h, hq]
      · simp [putIn, findIn, h, hq]
    · by_cases hq : k' = q
      · subst hq
        have : k ≠ k' := fun e => h e.symm
        simp [putIn, findIn, h, this]
      · simp [putIn, findIn, h, hq, ih]

theorem find?_insert (t : Table κ ν) (k q : κ) (v : ν) :
    (t.insert k v).find? q = if k = q then some v else t.find? q :=
  findIn_putIn k q v t.entries

@[simp] theorem find?_insert_self (t : Table κ ν) (k : κ) (v : ν) :
    (t.insert k v).find? k = some v := by
  simp [find?_insert]

theorem find?_insert_of_ne (t : Table κ ν) {k q : κ} (v : ν) (h : k ≠ q) :
    (t.insert k v).find? q = t.find? q := by
  simp [find?_insert, h]

theorem keys_putIn (k : κ) (v : ν) (l : List (κ × ν)) :
    (putIn k v l).map Prod.fst =
      if k ∈ l.map Prod.fst then l.map Prod.fst else l.map Prod.fst ++ [k] := by
  induction l with
  | nil => simp [putIn]
  | cons e r ih =>
    obtain ⟨k', v'⟩ := e
    by_cases h : k' = k
    · simp [putIn, h]
    · have hk : k ≠ k' := fun e => h e.symm
      by_cases hm : k ∈ r.map Prod.fst
      · simp only [putIn, if_neg h, List.map_cons, ih, List.mem_cons, hk, hm,
          false_or, if_true]
      · simp only [putIn, if_neg h, List.map_cons, ih, List.mem_cons, hk, hm,
          false_or, if_false, List.cons_append]

theorem keys_insert (t : Table κ ν) (k : κ) (v : ν) :
    (t.insert k v).keys = if k ∈ t.keys then t.keys else t.keys ++ [k] :=
  keys_putIn k v t.entries

theorem nodup_keys_insert {t : Table κ ν} (h : t.keys.Nodup) (k : κ) (v : ν) :
    (t.insert k v).keys.Nodup := by
  rw [keys_insert]
  split
  · exact h
  · rename_i hk
    rw [List.nodup_append]
    exact ⟨h, by simp, fun a ha b hb => by
      rw [List.mem_singleton] at hb
      exact fun e => hk (hb ▸ e ▸ ha)⟩

theorem find?_eq_none_iff (t : Table κ ν) (k : κ) : t.find? k = none ↔ k ∉ t.keys := by
  unfold find? keys
  induction t.entries with
  | nil => simp [findIn]
  | cons e r ih =>
    obtain ⟨k', v'⟩ := e
    by_cases h : k' = k
    · simp [findIn, h]
    · have hk : k ≠ k' := fun e => h e.symm
      simp [findIn, h, ih, hk]

theorem mem_of_findIn {k : κ} {v : ν} {l : List (κ × ν)} (h : findIn k l = some v) :
    (k, v) ∈ l := by
  induction l with
  | nil => simp [findIn] at h
  | cons e r ih =>
    obtain ⟨k', v'⟩ := e
    by_cases hk : k' = k
    · simp only [findIn, hk, if_true, Option.some.injEq] at h
      rw [hk, h]
      exact List.mem_cons_self
    · rw [findIn, if_neg hk] at h
      exact List.mem_cons_of_mem _ (ih h)

theorem findIn_of_mem {k : κ} {v : ν} {l : List (κ × ν)} (hl : (l.map Prod.fst).Nodup)
    (h : (k, v) ∈ l) : findIn k l = some v := by
  induction l with
  | nil => simp at h
  | cons e r ih =>
    obtain ⟨k', v'⟩ := e
    rw [List.map_cons, List.nodup_cons] at hl
    rcases List.mem_cons.mp h with he | hr
    · obtain ⟨rfl, rfl⟩ := Prod.mk.inj he
      simp [findIn]
    · have hk : k ∈ r.map Prod.fst := List.mem_map.mpr ⟨(k, v), hr, rfl⟩
      have hne : k' ≠ k := fun he => hl.1 (he ▸ hk)
      rw [findIn, if_neg hne]
      exact ih hl.2 hr

/-- With distinct keys the entries are the answers. -/
theorem mem_entries_iff {t : Table κ ν} (ht : t.keys.Nodup) {k : κ} {v : ν} :
    (k, v) ∈ t.entries ↔ t.find? k = some v :=
  ⟨findIn_of_mem ht, mem_of_findIn⟩

theorem putIn_putIn (k : κ) (v v' : ν) (l : List (κ × ν)) :
    putIn k v' (putIn k v l) = putIn k v' l := by
  induction l with
  | nil => simp [putIn]
  | cons e r ih =>
    obtain ⟨k', w⟩ := e
    by_cases h : k' = k
    · simp [putIn, h]
    · simp [putIn, h, ih]

/-- The later value stands. -/
theorem insert_insert (t : Table κ ν) (k : κ) (v v' : ν) :
    (t.insert k v).insert k v' = t.insert k v' :=
  congrArg Table.mk (putIn_putIn k v v' t.entries)

theorem putIn_of_findIn {k : κ} {v : ν} {l : List (κ × ν)} (h : findIn k l = some v) :
    putIn k v l = l := by
  induction l with
  | nil => cases h
  | cons e r ih =>
    obtain ⟨k', w⟩ := e
    by_cases hk : k' = k
    · rw [findIn, if_pos hk, Option.some.injEq] at h
      rw [putIn, if_pos hk, hk, h]
    · rw [findIn, if_neg hk] at h
      rw [putIn, if_neg hk, ih h]

/-- Inserting what is there changes nothing. -/
theorem insert_of_find? {t : Table κ ν} {k : κ} {v : ν} (h : t.find? k = some v) :
    t.insert k v = t :=
  congrArg Table.mk (putIn_of_findIn h)

theorem size_insert_of_find?_eq_none {t : Table κ ν} {k : κ} (h : t.find? k = none) (v : ν) :
    (t.insert k v).size = t.size + 1 := by
  have hsize : ∀ u : Table κ ν, u.size = u.keys.length := fun u => by simp [size, keys]
  rw [hsize, hsize, keys_insert, if_neg ((find?_eq_none_iff t k).mp h), List.length_append]
  rfl

theorem totalIn_putIn (f : ν → Nat) (k : κ) (v : ν) (l : List (κ × ν)) :
    totalIn f (putIn k v l) + ((findIn k l).map f).getD 0 = totalIn f l + f v := by
  induction l with
  | nil => simp [putIn, findIn, totalIn]
  | cons e r ih =>
    obtain ⟨k', w⟩ := e
    by_cases h : k' = k
    · simp only [putIn, findIn, if_pos h, totalIn, Option.map_some, Option.getD_some]
      omega
    · simp only [putIn, findIn, if_neg h, totalIn]
      omega

/-- The summand of the value that was there gives way to that of the new one. -/
theorem total_insert (f : ν → Nat) (t : Table κ ν) (k : κ) (v : ν) :
    (t.insert k v).total f + ((t.find? k).map f).getD 0 = t.total f + f v :=
  totalIn_putIn f k v t.entries

end Table

end LocaleServices

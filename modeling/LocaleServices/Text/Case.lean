/-!
  ASCII case of whole texts.

  `lower`, `upper` and `titled` change the letters A to Z and a to z only; every other
  character is kept. Applying one of them twice is the same as applying it once
  (`lower_lower`, `upper_upper`, `titled_titled`), and each is empty exactly when its
  argument is.
-/

namespace LocaleServices.Text

/-- Small letters for the capital ones. -/
def lower (s : String) : String :=
  String.ofList (s.toList.map Char.toLower)

/-- Capital letters for the small ones. -/
def upper (s : String) : String :=
  String.ofList (s.toList.map Char.toUpper)

/-- A capital first letter, then small ones. -/
def titledChars : List Char → List Char
  | [] => []
  | c :: r => c.toUpper :: r.map Char.toLower

/-- A text with a capital first letter and small ones after it. -/
def titled (s : String) : String :=
  String.ofList (titledChars s.toList)

/-! ## Characters -/

theorem toLower_toLower (c : Char) : c.toLower.toLower = c.toLower := by
  unfold Char.toLower
  split
  · rename_i h
    rw [dif_neg]
    simp only [ge_iff_le, UInt32.le_iff_toNat_le, UInt32.toNat_add] at h ⊢
    have h1 : ('A'.val).toNat = 65 := rfl
    have h2 : ('Z'.val).toNat = 90 := rfl
    have h3 : ('a'.val - 'A'.val).toNat = 32 := rfl
    omega
  · rfl

theorem toUpper_toUpper (c : Char) : c.toUpper.toUpper = c.toUpper := by
  unfold Char.toUpper
  split
  · rename_i h
    rw [dif_neg]
    simp only [UInt32.le_iff_toNat_le, UInt32.toNat_add] at h ⊢
    have h1 : ('a'.val).toNat = 97 := rfl
    have h2 : ('z'.val).toNat = 122 := rfl
    have h3 : ('A'.val - 'a'.val).toNat = 4294967264 := rfl
    omega
  · rfl

/-! ## Texts -/

@[simp] theorem toList_lower (s : String) : (lower s).toList = s.toList.map Char.toLower :=
  String.toList_ofList

@[simp] theorem toList_upper (s : String) : (upper s).toList = s.toList.map Char.toUpper :=
  String.toList_ofList

@[simp] theorem toList_titled (s : String) : (titled s).toList = titledChars s.toList :=
  String.toList_ofList

theorem lower_lower (s : String) : lower (lower s) = lower s := by
  rw [← String.toList_inj, toList_lower, toList_lower, List.map_map]
  exact List.map_congr_left fun c _ => toLower_toLower c

theorem upper_upper (s : String) : upper (upper s) = upper s := by
  rw [← String.toList_inj, toList_upper, toList_upper, List.map_map]
  exact List.map_congr_left fun c _ => toUpper_toUpper c

theorem titled_titled (s : String) : titled (titled s) = titled s := by
  rw [← String.toList_inj, toList_titled, toList_titled]
  cases s.toList with
  | nil => rfl
  | cons c r =>
    simp only [titledChars, toUpper_toUpper, List.map_map, List.cons.injEq, true_and]
    exact List.map_congr_left fun d _ => toLower_toLower d

theorem lower_eq_empty_iff {s : String} : lower s = "" ↔ s = "" := by
  rw [← String.toList_eq_nil_iff, toList_lower, List.map_eq_nil_iff, String.toList_eq_nil_iff]

theorem upper_eq_empty_iff {s : String} : upper s = "" ↔ s = "" := by
  rw [← String.toList_eq_nil_iff, toList_upper, List.map_eq_nil_iff, String.toList_eq_nil_iff]

theorem titled_eq_empty_iff {s : String} : titled s = "" ↔ s = "" := by
  rw [← String.toList_eq_nil_iff, ← String.toList_eq_nil_iff, toList_titled]
  cases s.toList <;> simp [titledChars]

end LocaleServices.Text

import LocaleServices.Ascending
import LocaleServices.Locale.Basic

/-!
  The order of locales.

  Locales are compared by language, script, region and variant, then by their extensions as
  a list of keys and values; texts are compared character by character, by code point. The
  order is total, and only equal locales compare as equal (`eq_of_order`).
-/

namespace LocaleServices

namespace Extension

instance : Ord Extension :=
  ⟨compareLex (compareOn Extension.key) (compareOn Extension.value)⟩

instance : Std.TransOrd Extension :=
  inferInstanceAs (Std.TransCmp (compareLex (compareOn Extension.key) (compareOn Extension.value)))

instance : Std.LawfulEqOrd Extension where
  compare_self := Std.ReflOrd.compare_self
  eq_of_compare {a b} h := by
    obtain ⟨hk, hv⟩ := Ordering.then_eq_eq.mp (show (compare a.key b.key).then
      (compare a.value b.value) = .eq from h)
    cases a
    cases b
    simp only [Std.LawfulEqCmp.compare_eq_iff_eq] at hk hv
    simp [hk, hv]

end Extension

namespace Locale

/-- Field by field, the extensions last. -/
def order (a b : Locale) : Ordering :=
  compareLex (compareOn language) (compareLex (compareOn script) (compareLex (compareOn region)
    (compareLex (compareOn variant) (compareOn fun l => l.extensions.entries)))) a b

instance : Ord Locale := ⟨order⟩

instance : Std.TransOrd Locale :=
  inferInstanceAs (Std.TransCmp (compareLex (compareOn language) (compareLex (compareOn script)
    (compareLex (compareOn region) (compareLex (compareOn variant)
      (compareOn fun l => l.extensions.entries))))))

theorem eq_of_order {a b : Locale} (h : order a b = .eq) : a = b := by
  obtain ⟨hl, h⟩ := Ordering.then_eq_eq.mp h
  obtain ⟨hs, h⟩ := Ordering.then_eq_eq.mp h
  obtain ⟨hr, h⟩ := Ordering.then_eq_eq.mp h
  obtain ⟨hv, he⟩ := Ordering.then_eq_eq.mp h
  simp only [compareOn, Std.LawfulEqCmp.compare_eq_iff_eq] at hl hs hr hv he
  cases a with
  | mk al as ar av ae =>
    cases b with
    | mk bl bs br bv be =>
      cases ae
      cases be
      simp_all

instance : Std.LawfulEqOrd Locale where
  compare_self := Std.ReflOrd.compare_self
  eq_of_compare := eq_of_order

/-- The locales in ascending order, repetitions kept. -/
def sort (ls : List Locale) : List Locale :=
  ls.mergeSort fun a b => (order a b).isLE

end Locale

end LocaleServices

import LocaleServices.Locale.Subtag

/-!
  The form under which a declared locale counts as available.

  A locale without extensions and an irregular one are their own keys. Any other locale is
  cleared; when a field is ill-formed its key is built anew from language, region and
  variant, so the script is lost (`degradation?` says why).
-/

namespace LocaleServices.Locale

/-- Whether the locale is its own key. -/
def isPlain (l : Locale) : Bool := !l.hasExtensions || l.isIrregular

/-- The fault that keeps extensions from being cleared. -/
def degradation? (l : Locale) : Option IllFormed :=
  if l.isPlain then none else l.modernized.fault?

def availabilityKey (l : Locale) : Locale :=
  if l.isPlain then l
  else
    match l.degradation? with
    | none => l.modernized
    | some _ => unscripted l.language l.region l.variant

theorem availabilityKey_of_not_hasExtensions {l : Locale} (h : l.hasExtensions = false) :
    l.availabilityKey = l := by
  simp [availabilityKey, isPlain, h]

end LocaleServices.Locale

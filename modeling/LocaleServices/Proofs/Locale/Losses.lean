import LocaleServices.Proofs.Locale.Normal

/-!
  What a key loses of its locale.

  A key `KeepsFields` of its locale when nothing has to be cleared, or when clearing changes
  no field: there is no legacy form to respell, and a script is lost only to an ill-formed
  field. Otherwise the key is the modern spelling of the legacy form, or the locale without
  its script. Main statement: `availabilityKey_fields`.

  Extensions are lost and not gained, but for one case: a legacy form that loses an ill-formed
  script is made anew from its fields and takes on their marker (`GainsMarker`,
  `availabilityKey_extensions_iff`).
-/

namespace LocaleServices.Locale

/-! ## Base fields -/

/-- Whether the key has the base fields of the locale. -/
def KeepsFields (l : Locale) : Prop :=
  l.hasExtensions = false ∨ l.isIrregular = true ∨
    l.legacy? = none ∧ (l.script = "" ∨ l.validate = .ok ())

section Fields

variable {l : Locale}

theorem keepsFields_of_isPlain (h : l.isPlain = true) : l.KeepsFields := by
  rw [isPlain, Bool.or_eq_true, Bool.not_eq_true'] at h
  exact h.imp id Or.inl

/-- Beyond plain locales, the form and the script decide. -/
theorem keepsFields_iff_of_not_isPlain (h : l.isPlain = false) :
    l.KeepsFields ↔ l.legacy? = none ∧ (l.script = "" ∨ l.validate = .ok ()) := by
  rw [isPlain, Bool.or_eq_false_iff, Bool.not_eq_false'] at h
  simp [KeepsFields, h]

/-- A legacy form that is cleared is respelled. -/
theorem not_keepsFields_of_legacy? {form : Legacy} (h : l.isPlain = false)
    (hf : l.legacy? = some form) : ¬ l.KeepsFields := by
  rw [keepsFields_iff_of_not_isPlain h, hf]
  exact fun hk => absurd hk.1 (by simp)

/-- The fault of a locale in no legacy form is a fault of its own fields. -/
theorem validate_ne_ok_of_fault {e : IllFormed} (hf : l.legacy? = none)
    (hd : l.modernized.fault? = some e) : l.validate ≠ .ok () := by
  rw [modernized_of_legacy?_eq_none hf, fault?_bare] at hd
  rw [Ne, validate_eq_ok_iff, hd]
  simp

theorem IsUsual.bare_unscripted (h : l.IsUsual) :
    (unscripted l.language l.region l.variant).bare = { l.bare with script := "" } := by
  simp only [unscripted, ofFields, bare, h.language, h.region]
  rfl

theorem IsUsual.bare_unscripted_eq_iff (h : l.IsUsual) :
    (unscripted l.language l.region l.variant).bare = l.bare ↔ l.script = "" := by
  rw [h.bare_unscripted]
  constructor
  · intro he
    exact (congrArg Locale.script he).symm
  · intro hs
    rw [← hs]
    rfl

/-- A key without its script has the fields of its locale if there was no script to lose. -/
theorem keepsFields_iff_of_fault {e : IllFormed} (h : l.isPlain = false)
    (hd : l.modernized.fault? = some e) : l.KeepsFields ↔ l.script = "" := by
  rw [keepsFields_iff_of_not_isPlain h]
  cases hf : l.legacy? with
  | none =>
    have hv : l.validate ≠ .ok () := validate_ne_ok_of_fault hf hd
    simp [hv]
  | some form =>
    have hs : l.script ≠ "" := fun hs => by
      rw [(fault?_modernized_of_legacy? hf).mpr (by simp [admits, Field.of, hs])] at hd
      cases hd
    simp [hs]

theorem IsUsual.bare_availabilityKey_eq_iff (h : l.IsUsual) :
    l.availabilityKey.bare = l.bare ↔ l.KeepsFields := by
  have hcase := keyCase h
  generalize l.availabilityKey = key at hcase
  cases hcase with
  | plain hp => exact ⟨fun _ => keepsFields_of_isPlain hp, fun _ => rfl⟩
  | modern form hp hf _ =>
    refine ⟨fun he => ?_, fun hk => absurd hk (not_keepsFields_of_legacy? hp hf)⟩
    have hv : "" = l.variant := congrArg Locale.variant he
    exact absurd hv.symm (variant_ne_empty_of_legacy? hf)
  | clean hp hf hv =>
    have hk : l.KeepsFields :=
      (keepsFields_iff_of_not_isPlain hp).mpr ⟨hf, Or.inr (validate_eq_ok_iff.mpr hv)⟩
    exact ⟨fun _ => hk, fun _ => h.bare_rebuilt⟩
  | degraded e hp hd => rw [h.bare_unscripted_eq_iff, keepsFields_iff_of_fault hp hd]

theorem IsUsual.availabilityKey_of_legacy? (h : l.IsUsual) {form : Legacy}
    (hk : ¬ l.KeepsFields) (hf : l.legacy? = some form) (hs : l.admits .script = true) :
    l.availabilityKey = ⟨form.modernLanguage, l.script, l.region, "", .empty⟩ := by
  have hcase := keyCase h
  generalize l.availabilityKey = key at hcase
  cases hcase with
  | plain hp => exact absurd (keepsFields_of_isPlain hp) hk
  | modern form' _ hf' _ =>
    obtain rfl : form' = form := Option.some.inj (hf'.symm.trans hf)
    rw [← h.modernized_eq_ofFields hf, modernized_of_legacy? hf]
    rfl
  | clean _ hf' => rw [hf] at hf'; cases hf'
  | degraded e _ hd => rw [(fault?_modernized_of_legacy? hf).mpr hs] at hd; cases hd

theorem IsUsual.availabilityKey_of_fault (h : l.IsUsual) (hk : ¬ l.KeepsFields)
    (hs : l.legacy? = none ∨ l.admits .script = false) :
    l.availabilityKey = unscripted l.language l.region l.variant := by
  have hcase := keyCase h
  generalize l.availabilityKey = key at hcase
  cases hcase with
  | plain hp => exact absurd (keepsFields_of_isPlain hp) hk
  | modern form _ hf hs' => rw [hf, hs'] at hs; simp at hs
  | clean hp hf hv =>
    exact absurd ((keepsFields_iff_of_not_isPlain hp).mpr
      ⟨hf, Or.inr (validate_eq_ok_iff.mpr hv)⟩) hk
  | degraded => rfl

end Fields

/-- The key has the base fields of its locale exactly if there are no extensions, or the
    locale is irregular, or it has no legacy form and either no script or no fault. Else a
    legacy form whose script is empty or well-formed is respelled, and any other locale
    loses its script and nothing more of its fields. -/
theorem availabilityKey_fields {l : Locale} (h : l.Built) :
    (l.availabilityKey.bare = l.bare ↔
        l.hasExtensions = false ∨ l.isIrregular = true ∨
          l.legacy? = none ∧ (l.script = "" ∨ l.validate = .ok ())) ∧
      (l.availabilityKey.bare ≠ l.bare →
        (∀ form, l.legacy? = some form → l.admits .script = true →
          l.availabilityKey = ⟨form.modernLanguage, l.script, l.region, "", .empty⟩) ∧
        (l.legacy? = none ∨ l.admits .script = false →
          l.availabilityKey = unscripted l.language l.region l.variant ∧
            l.availabilityKey.bare = { l.bare with script := "" })) := by
  have husual := h.isUsual
  have hkeeps : l.availabilityKey.bare = l.bare ↔ l.KeepsFields :=
    husual.bare_availabilityKey_eq_iff
  refine ⟨hkeeps, fun hne => ?_⟩
  have hk : ¬ l.KeepsFields := mt hkeeps.mpr hne
  refine ⟨fun form hf hs => husual.availabilityKey_of_legacy? hk hf hs, fun hs => ?_⟩
  have hkey := husual.availabilityKey_of_fault hk hs
  refine ⟨hkey, ?_⟩
  rw [hkey]
  exact husual.bare_unscripted

/-- Thai with its digits, a well-formed script and a further extension is respelled; with an
    ill-formed script it loses the script alone, and its digits come back. -/
theorem availabilityKey_fields_thai :
    let scripted := (ofFields "th" "Latn" "TH" "TH").withExtension 'x' "foo"
    let faulty := (ofFields "th" "La" "TH" "TH").withExtension 'x' "foo"
    scripted.Built ∧ scripted.availabilityKey = ⟨"th", "Latn", "TH", "", .empty⟩ ∧
      faulty.Built ∧ faulty.availabilityKey = thaiDigits ∧
      faulty.availabilityKey.bare ≠ faulty.bare := by
  intro scripted faulty
  have hscripted : scripted.Built := (Built.ofFields "th" "Latn" "TH" "TH").withExtension 'x' "foo"
  have hfaulty : faulty.Built := (Built.ofFields "th" "La" "TH" "TH").withExtension 'x' "foo"
  have hne : scripted.availabilityKey.bare ≠ scripted.bare := by decide
  have hne' : faulty.availabilityKey.bare ≠ faulty.bare := by decide
  obtain ⟨hrespelled, -⟩ := (availabilityKey_fields hscripted).2 hne
  obtain ⟨-, hrebuilt⟩ := (availabilityKey_fields hfaulty).2 hne'
  exact ⟨hscripted, hrespelled .thai (by decide) (by decide), hfaulty,
    (hrebuilt (Or.inr (by decide))).1, hne'⟩

/-! ## Extensions -/

section Extensions

variable {l : Locale}

/-- Whether a legacy form loses its script and takes on a marker that the locale has not. -/
def GainsMarker (l : Locale) : Prop :=
  l.hasExtensions = true ∧ l.admits .script = false ∧
    ∃ form value, l.legacy? = some form ∧
      form.marker.find? Legacy.unicodeKey = some value ∧
      l.extension? Legacy.unicodeKey ≠ some value

theorem extension?_of_not_hasExtensions (h : l.hasExtensions = false) (key : Char) :
    l.extension? key = none := by
  rw [extension?, hasExtensions_eq_false_iff.mp h, Extensions.find?_empty]

theorem eq_unicodeKey_of_marker {form : Legacy} {key : Char} {value : String}
    (h : form.marker.find? key = some value) : key = Legacy.unicodeKey := by
  have hsingle : ∀ v, (Extensions.single Legacy.unicodeKey v).find? key = some value →
      key = Legacy.unicodeKey := by
    intro v hv
    by_cases hk : Legacy.unicodeKey = key
    · exact hk.symm
    · simp [Extensions.find?, Extensions.single, Extension.findIn, hk] at hv
  cases form with
  | japanese => exact hsingle _ h
  | thai => exact hsingle _ h
  | nynorsk => cases h

/-- Without its script a locale has the marker of its legacy form. -/
theorem IsUsual.extension?_unscripted (h : l.IsUsual) (key : Char) :
    (unscripted l.language l.region l.variant).extension? key =
      l.legacy?.bind fun form => form.marker.find? key.toLower := by
  have hext : (unscripted l.language l.region l.variant).extensions =
      markerOf l.language "" l.region l.variant := by
    simp only [unscripted, ofFields, h.language, h.region]
    rfl
  rw [extension?, hext, markerOf, if_pos rfl, ← legacy?]
  cases l.legacy? <;> rfl

/-- An irregular locale has no script, so it has none that could be lost. -/
theorem not_gainsMarker_of_isPlain (h : l.isPlain = true) : ¬ l.GainsMarker := by
  rintro ⟨hext, hscript, -⟩
  have hi : l.isIrregular = true := by simpa [isPlain, hext] using h
  have hs : l.script = "" := (isIrregular_iff.mp hi).1.1
  simp [admits, Field.of, hs] at hscript

theorem admits_script_of_degraded {form : Legacy} {e : IllFormed} (hf : l.legacy? = some form)
    (hd : l.modernized.fault? = some e) : l.admits .script = false := by
  rw [← Bool.not_eq_true, ← fault?_modernized_of_legacy? hf, hd]
  simp

/-- Every extension of the key is one of the locale, unless the key takes on a marker. -/
theorem availabilityKey_extensions_iff {l : Locale} (h : l.Built) :
    (∀ key value, l.availabilityKey.extension? key = some value →
        l.extension? key = some value) ↔ ¬ l.GainsMarker := by
  have hnone : ∀ {m : Locale}, m.hasExtensions = false → ∀ key value,
      m.extension? key = some value → l.extension? key = some value := by
    intro m hm key value hv
    rw [extension?_of_not_hasExtensions hm] at hv
    cases hv
  have husual := h.isUsual
  have hcase := keyCase husual
  generalize l.availabilityKey = key at hcase
  cases hcase with
  | plain hp => exact ⟨fun _ => not_gainsMarker_of_isPlain hp, fun _ _ _ hv => hv⟩
  | modern form _ hf hs =>
    have hext := l.hasExtensions_modernized
    rw [husual.modernized_eq_ofFields hf] at hext
    refine ⟨?_, fun _ => hnone hext⟩
    rintro - ⟨-, hscript, -⟩
    rw [hs] at hscript
    cases hscript
  | clean _ hf _ =>
    rw [husual.rebuilt_eq_bare_of_legacy? hf]
    refine ⟨?_, fun _ => hnone rfl⟩
    rintro - ⟨-, -, form, -, hform, -⟩
    rw [hf] at hform
    cases hform
  | degraded e hp hd =>
    constructor
    · rintro hkeeps ⟨-, -, form, value, hf, hvalue, hne⟩
      refine hne (hkeeps Legacy.unicodeKey value ?_)
      rw [husual.extension?_unscripted, hf]
      exact hvalue
    · intro hg key value hv
      rw [husual.extension?_unscripted, Option.bind_eq_some_iff] at hv
      obtain ⟨form, hf, hvalue⟩ := hv
      have hkey : key.toLower = Legacy.unicodeKey := eq_unicodeKey_of_marker hvalue
      rw [hkey] at hvalue
      have hsame : l.extension? key = l.extension? Legacy.unicodeKey :=
        congrArg l.extensions.find? hkey
      rw [hsame]
      refine Classical.byContradiction fun hne => hg ?_
      exact ⟨hasExtensions_of_not_isPlain hp, admits_script_of_degraded hf hd, form, value, hf,
        hvalue, hne⟩

end Extensions

/-- Thai with an ill-formed script keeps the digits that it has, and takes them on when it
    has other extensions only. -/
theorem availabilityKey_extensions_thai :
    let marked := (ofFields "th" "La" "TH" "TH").withExtension 'u' "nu-thai"
    let other := (ofFields "th" "La" "TH" "TH").withExtension 'x' "foo"
    marked.Built ∧ marked.availabilityKey.extension? 'u' = some "nu-thai" ∧
      (∀ key value, marked.availabilityKey.extension? key = some value →
        marked.extension? key = some value) ∧
      other.Built ∧ ¬ ∀ key value, other.availabilityKey.extension? key = some value →
        other.extension? key = some value := by
  intro marked other
  have hmarked : marked.Built := (Built.ofFields "th" "La" "TH" "TH").withExtension 'u' "nu-thai"
  have hother : other.Built := (Built.ofFields "th" "La" "TH" "TH").withExtension 'x' "foo"
  refine ⟨hmarked, by decide, (availabilityKey_extensions_iff hmarked).mpr ?_, hother, ?_⟩
  · rintro ⟨-, -, form, value, hf, hvalue, hne⟩
    obtain rfl : Legacy.thai = form := Option.some.inj hf
    exact hne hvalue
  · refine fun hkeeps => (availabilityKey_extensions_iff hother).mp hkeeps ?_
    exact ⟨by decide, by decide, .thai, "nu-thai", by decide, by decide, by decide⟩

/-- Japanese with an ill-formed script and a private extension has no calendar, but its key
    has one. -/
theorem availabilityKey_gains_calendar :
    let l := (ofFields "ja" "Ha" "JP" "JP").withExtension 'x' "foo"
    l.availabilityKey.extension? 'u' = some "ca-japanese" ∧ l.extension? 'u' = none ∧
      ¬ ∀ key value, l.availabilityKey.extension? key = some value →
        l.extension? key = some value := by
  intro l
  have hkey : l.availabilityKey.extension? 'u' = some "ca-japanese" := by decide
  have hnone : l.extension? 'u' = none := by decide
  refine ⟨hkey, hnone, fun hkeeps => ?_⟩
  have hsome := hkeeps 'u' "ca-japanese" hkey
  rw [hnone] at hsome
  cases hsome

end LocaleServices.Locale

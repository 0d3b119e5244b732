import LocaleServices.Proofs.Runs
import LocaleServices.Proofs.Locale.Normal

/-!
  Extensions after a run of edits.

  `edited` applies edits to a locale one after the other; an edit with an empty value removes
  its extension. What a key answers in the end is the `outcome` of the last edit of that key,
  the case of keys aside, and what it answered before when there is none
  (`extension?_edited`). So edits with the same last outcome for every key cannot be told
  apart (`edited_congr`), and a locale is its base fields edited by its own extensions
  (`edited_bare`). Main statement: `edited_last_write`.
-/

namespace LocaleServices

/-! ## Edits -/

namespace Extension

/-- What the edit leaves under its key: nothing for an empty value, else small letters. -/
def outcome (e : Extension) : Option String :=
  if e.value = "" then none else some (Text.lower e.value)

/-- The last edit whose key is `k` in small letters. -/
def lastFor? (k : Char) (edits : List Extension) : Option Extension :=
  edits.findRev? fun e => e.key.toLower = k

/-- No edit is for a key that is not in small letters. -/
theorem lastFor?_of_ne {k : Char} (hk : k.toLower ≠ k) (edits : List Extension) :
    lastFor? k edits = none := by
  refine findRev?_eq_none_iff.mpr fun e _ => decide_eq_false ?_
  rintro rfl
  exact hk (Text.toLower_toLower e.key)

theorem lastFor?_eq_none_iff {k : Char} {edits : List Extension} :
    lastFor? k edits = none ↔ ∀ e ∈ edits, e.key.toLower ≠ k := by
  simp only [lastFor?, findRev?_eq_none_iff, decide_eq_false_iff_not, ne_eq]

theorem lastFor?_eq_some_iff {k : Char} {edits : List Extension} {e : Extension} :
    lastFor? k edits = some e ↔ e.key.toLower = k ∧ ∃ before after,
      edits = before ++ e :: after ∧ ∀ f ∈ after, f.key.toLower ≠ k := by
  simp only [lastFor?, findRev?_eq_some_iff_append, decide_eq_true_eq, decide_eq_false_iff_not,
    ne_eq]

end Extension

namespace Extensions

/-- In ascending order each entry is the answer for its key. -/
theorem find?_of_mem {x : Extensions} {e : Extension} (h : e ∈ x.entries) :
    x.find? e.key = some e.value := by
  obtain ⟨entries, ascending⟩ := x
  unfold find?
  dsimp only at h ⊢
  induction entries with
  | nil => cases h
  | cons f entries ih =>
    obtain ⟨hf, hrest⟩ := List.pairwise_cons.mp ascending
    rcases List.mem_cons.mp h with rfl | h
    · rw [Extension.findIn, if_pos rfl]
    · have hne : f.key ≠ e.key := fun he => Char.lt_irrefl _ (he ▸ hf e h)
      rw [Extension.findIn, if_neg hne]
      exact ih hrest h

end Extensions

namespace Locale

variable {l : Locale}

open Extension (lastFor? lastFor?_eq_some_iff lastFor?_eq_none_iff lastFor?_of_ne)

/-- A locale after some edits of its extensions, in order. -/
def edited (l : Locale) (edits : List Extension) : Locale :=
  edits.foldl (fun l e => l.withExtension e.key e.value) l

/-! ## One edit and many -/

/-- The last edit of a key says what stands under it. -/
theorem find?_edited (l : Locale) (edits : List Extension) (k : Char) :
    (l.edited edits).extensions.find? k =
      ((lastFor? k edits).map Extension.outcome).getD (l.extensions.find? k) := by
  refine view_foldl (fun l : Locale => l.extensions.find? k) (fun l e => ?_) l edits
  simp only [decide_eq_true_eq]
  exact l.find?_withExtension e.key k e.value

theorem extension?_edited (l : Locale) (edits : List Extension) (q : Char) :
    (l.edited edits).extension? q =
      ((lastFor? q.toLower edits).map Extension.outcome).getD (l.extension? q) :=
  l.find?_edited edits q.toLower

theorem bare_edited (l : Locale) (edits : List Extension) : (l.edited edits).bare = l.bare := by
  induction edits generalizing l with
  | nil => rfl
  | cons e edits ih => exact (ih _).trans (l.bare_withExtension e.key e.value)

theorem Built.edited (h : l.Built) (edits : List Extension) : (l.edited edits).Built := by
  induction edits generalizing l with
  | nil => exact h
  | cons e edits ih => exact ih (h.withExtension e.key e.value)

/-! ## Edits that come to the same -/

theorem eq_of_bare_eq_of_find? {a b : Locale} (hbare : a.bare = b.bare)
    (hfind : ∀ k, a.extensions.find? k = b.extensions.find? k) : a = b := by
  obtain ⟨hl, hs, hr, hv⟩ := bare_eq_iff.mp hbare
  have he : a.extensions = b.extensions := Extensions.ext_find? hfind
  cases a
  cases b
  simp_all

/-- Only the last outcome for each key counts. -/
theorem edited_congr (l : Locale) {edits others : List Extension}
    (h : ∀ q : Char, (lastFor? q.toLower edits).map Extension.outcome =
      (lastFor? q.toLower others).map Extension.outcome) :
    l.edited edits = l.edited others := by
  refine eq_of_bare_eq_of_find? ((l.bare_edited edits).trans (l.bare_edited others).symm)
    fun k => ?_
  rw [find?_edited, find?_edited]
  -- The hypothesis speaks of small letters only; under any other key no edit writes.
  by_cases hk : k.toLower = k
  · have hsame := h k
    rw [hk] at hsame
    rw [hsame]
  · rw [lastFor?_of_ne hk, lastFor?_of_ne hk]

/-- Entries in small letters, edited into the base fields, make up the locale. -/
theorem edited_bare (h : ∀ e ∈ l.extensions.entries,
    e.key.toLower = e.key ∧ e.outcome = some e.value) :
    l.bare.edited l.extensions.entries = l := by
  refine eq_of_bare_eq_of_find? (l.bare.bare_edited _) fun k => ?_
  rw [find?_edited]
  -- Keys are distinct, so the last entry for a key is the one that answers for it.
  cases hlast : lastFor? k l.extensions.entries with
  | none =>
    refine (Extension.findIn_eq_none fun e he => ?_).symm
    rw [← (h e he).1]
    exact lastFor?_eq_none_iff.mp hlast e he
  | some e =>
    obtain ⟨hk, before, after, hentries, -⟩ := lastFor?_eq_some_iff.mp hlast
    have he : e ∈ l.extensions.entries := hentries ▸ List.mem_append_right _ List.mem_cons_self
    obtain ⟨hkey, hout⟩ := h e he
    rw [← hk, hkey, Extensions.find?_of_mem he, ← hout]
    rfl

/-! ## Irregular locales -/

theorem isIrregular_iff_eq :
    l.isIrregular = true ↔ l = japaneseCalendar ∨ l = thaiDigits := by
  constructor
  · intro h
    have hext : l.hasExtensions = true := by
      simp only [isIrregular, Bool.and_eq_true] at h
      exact h.1.1
    exact eq_irregular_of_isPlain (by rw [isPlain, h, Bool.or_true]) hext
  · rintro (rfl | rfl) <;> decide

/-- The last edit of a key decides. If the last edit of a key, whatever the case of the
    letters, has an empty value, the extension is gone; else it has that value in small
    letters; and without an edit of the key it is as it was. The base fields stay. Edits with
    the same last outcome for each key give the same locale. And the edited locale is
    irregular exactly if it is Japanese with its calendar or Thai with its digits. -/
theorem edited_last_write (l : Locale) (edits : List Extension) :
    (∀ q : Char,
      (∀ before e after, edits = before ++ e :: after → e.key.toLower = q.toLower →
        (∀ f ∈ after, f.key.toLower ≠ q.toLower) →
        (l.edited edits).extension? q =
          if e.value = "" then none else some (Text.lower e.value)) ∧
      ((∀ e ∈ edits, e.key.toLower ≠ q.toLower) →
        (l.edited edits).extension? q = l.extension? q)) ∧
    (l.edited edits).bare = l.bare ∧
    (∀ others : List Extension,
      (∀ q : Char, (lastFor? q.toLower edits).map Extension.outcome =
        (lastFor? q.toLower others).map Extension.outcome) →
      l.edited edits = l.edited others) ∧
    ((l.edited edits).isIrregular = true ↔
      l.edited edits = japaneseCalendar ∨ l.edited edits = thaiDigits) := by
  refine ⟨fun q => ⟨fun before e after hedits hkey hafter => ?_, fun hnone => ?_⟩,
    l.bare_edited edits, fun others => l.edited_congr, isIrregular_iff_eq⟩
  · have hlast : lastFor? q.toLower edits = some e :=
      lastFor?_eq_some_iff.mpr ⟨hkey, before, after, hedits, hafter⟩
    rw [extension?_edited, hlast]
    rfl
  · rw [extension?_edited, lastFor?_eq_none_iff.mpr hnone]
    rfl

/-- Japanese takes its calendar off and on again, with an extension that comes and goes in
    between; setting the calendar and removing nothing is the same. -/
theorem edited_last_write_japanese :
    let edits : List Extension := [⟨'u', ""⟩, ⟨'X', "Foo"⟩, ⟨'U', "CA-Japanese"⟩, ⟨'x', ""⟩]
    let others : List Extension := [⟨'X', ""⟩, ⟨'u', "ca-japanese"⟩]
    (japaneseCalendar.edited edits).extension? 'u' = some "ca-japanese" ∧
      (japaneseCalendar.edited edits).extension? 'X' = none ∧
      (japaneseCalendar.edited edits).extension? 't' = japaneseCalendar.extension? 't' ∧
      japaneseCalendar.edited edits = japaneseCalendar.edited others ∧
      (japaneseCalendar.edited edits).isIrregular = true ∧
      (japaneseCalendar.edited (edits.take 3)).isIrregular = false := by
  intro edits others
  obtain ⟨hkeys, -, hothers, hirregular⟩ := edited_last_write japaneseCalendar edits
  obtain ⟨-, -, -, hearlier⟩ := edited_last_write japaneseCalendar (edits.take 3)
  have hcalendar := (hkeys 'u').1 (edits.take 2) ⟨'U', "CA-Japanese"⟩ [⟨'x', ""⟩] rfl
    (by decide) (by decide)
  have hgone := (hkeys 'X').1 (edits.take 3) ⟨'x', ""⟩ [] rfl (by decide) (by decide)
  have hused : ∀ es ∈ [edits, others], ∀ e ∈ es, e.key.toLower = 'u' ∨ e.key.toLower = 'x' := by
    decide
  have hfree : ∀ {k : Char}, 'u' ≠ k → 'x' ≠ k → ∀ es ∈ [edits, others], lastFor? k es = none := by
    intro k hu hx es hes
    refine lastFor?_eq_none_iff.mpr fun e he => ?_
    rcases hused es hes e he with h | h
    · exact h ▸ hu
    · exact h ▸ hx
  have hsame : ∀ q : Char, (lastFor? q.toLower edits).map Extension.outcome =
      (lastFor? q.toLower others).map Extension.outcome := by
    intro q
    by_cases hu : 'u' = q.toLower
    · rw [← hu]
      decide
    · by_cases hx : 'x' = q.toLower
      · rw [← hx]
        decide
      · rw [hfree hu hx edits (by simp), hfree hu hx others (by simp)]
  refine ⟨hcalendar, hgone, (hkeys 't').2 (by decide), hothers others hsame,
    hirregular.mpr (Or.inl (by decide)), ?_⟩
  rw [← Bool.not_eq_true, hearlier]
  decide

end Locale

end LocaleServices

import LocaleServices.Proofs.Runs
import LocaleServices.Adapter.NameTable
import LocaleServices.Service.Session

/-!
  Name tables, change by change.

  A table is `filled` by changes, each of which declares a locale or enters a name for one.
  It lists the locales of its changes in the order of their first mentions (`locales_filled`),
  and serves the root and whatever has the base fields of one of them (`supports_filled_iff`).
  The name under given base fields and a key is that of the last change for these
  (`entered?_filled_eq_some_iff`), so what is found from a locale is the last name for the
  first candidate with one, and the table serves that candidate (`name?_filled_eq_some_iff`).
  Main statement: `filled_answers`.
-/

namespace LocaleServices

namespace NameTable

/-! ## Changes -/

/-- One change of a table. -/
inductive Change
  | declare (locale : Locale)
  | enter (locale : Locale) (key name : String)
deriving DecidableEq

namespace Change

/-- The locale that a change is about. -/
def locale : Change → Locale
  | declare l => l
  | enter l _ _ => l

def name? : Change → Option String
  | declare _ => none
  | enter _ _ name => some name

/-- Whether a change enters a name for the base fields of a locale and for a key. -/
def names (d : Locale) (key : String) : Change → Bool
  | declare _ => false
  | enter l k _ => l.bare = d.bare ∧ k = key

end Change

def change (t : NameTable) : Change → NameTable
  | .declare l => t.declare l
  | .enter l key name => t.enter l key name

/-- The table that changes make of the empty one, in order. -/
def filled (changes : List Change) : NameTable := changes.foldl change empty

variable {changes : List Change} {d m : Locale} {key name : String}

theorem filled_concat (changes : List Change) (c : Change) :
    filled (changes ++ [c]) = (filled changes).change c :=
  List.foldl_append

/-! ## Locales -/

theorem locales_change (t : NameTable) (c : Change) :
    (t.change c).locales = if c.locale ∈ t.locales then t.locales else t.locales ++ [c.locale] := by
  cases c with
  | declare l => exact t.locales_declare l
  | enter l key name => exact t.locales_declare l

/-- First mentions are listed, in order. -/
theorem locales_filled (changes : List Change) :
    (filled changes).locales = (changes.map Change.locale).eraseDups := by
  induction changes using List.reverseRecOn with
  | nil => rfl
  | append_singleton changes c ih =>
    rw [filled_concat, locales_change, ih, List.map_append, List.map_singleton, eraseDups_concat]
    simp only [List.mem_eraseDups]

theorem supports_filled_iff :
    (filled changes).supports m = true ↔
      m.bare = .root ∨ ∃ c ∈ changes, c.locale.bare = m.bare := by
  rw [supports, Locale.isCoveredBy_iff, locales_filled]
  simp only [List.mem_eraseDups, List.mem_map, exists_exists_and_eq_and]

/-! ## Names -/

/-- No change enters a name for these base fields and this key. -/
def Unnamed (changes : List Change) (d : Locale) (key : String) : Prop :=
  ∀ l name, Change.enter l key name ∈ changes → l.bare ≠ d.bare

/-- The last change for these base fields and this key enters the name. -/
def LastNamed (changes : List Change) (d : Locale) (key name : String) : Prop :=
  ∃ before l after, changes = before ++ .enter l key name :: after ∧ l.bare = d.bare ∧
    Unnamed after d key

theorem unnamed_iff : Unnamed changes d key ↔ ∀ c ∈ changes, c.names d key = false := by
  constructor
  · intro h c hc
    cases c with
    | declare l => rfl
    | enter l k name =>
      refine decide_eq_false ?_
      rintro ⟨hl, rfl⟩
      exact h l name hc hl
  · intro h l name hc hl
    exact of_decide_eq_false (h _ hc) ⟨hl, rfl⟩

theorem entered?_change (t : NameTable) (c : Change) (d : Locale) (key : String) :
    (t.change c).entered? d key = if c.names d key then c.name? else t.entered? d key := by
  cases c with
  | declare l => exact t.entered?_declare l d key
  | enter l k name =>
    simp only [change, entered?_enter, Change.names, Change.name?, decide_eq_true_eq]

/-- The last name stands. -/
theorem entered?_filled (changes : List Change) (d : Locale) (key : String) :
    (filled changes).entered? d key =
      ((changes.findRev? (·.names d key)).map Change.name?).getD none :=
  view_foldl (fun t => t.entered? d key) (fun t c => t.entered?_change c d key) empty changes

theorem entered?_filled_eq_none_iff :
    (filled changes).entered? d key = none ↔ Unnamed changes d key := by
  rw [entered?_filled, unnamed_iff, ← findRev?_eq_none_iff]
  cases hlast : changes.findRev? (·.names d key) with
  | none => simp
  | some c =>
    obtain ⟨hc, -⟩ := findRev?_eq_some_iff_append.mp hlast
    cases c with
    | declare l => cases hc
    | enter l k name => simp [Change.name?]

theorem entered?_filled_eq_some_iff :
    (filled changes).entered? d key = some name ↔ LastNamed changes d key name := by
  rw [entered?_filled]
  constructor
  · intro h
    cases hlast : changes.findRev? (·.names d key) with
    | none =>
      rw [hlast] at h
      cases h
    | some c =>
      rw [hlast] at h
      obtain ⟨hc, before, after, hchanges, hafter⟩ := findRev?_eq_some_iff_append.mp hlast
      cases c with
      | declare l => cases hc
      | enter l k n =>
        obtain ⟨hl, rfl⟩ := of_decide_eq_true hc
        obtain rfl : n = name := Option.some.inj h
        exact ⟨before, l, after, hchanges, hl, unnamed_iff.mpr hafter⟩
  · rintro ⟨before, l, after, hchanges, hl, hafter⟩
    have hlast : changes.findRev? (·.names d key) = some (.enter l key name) :=
      findRev?_eq_some_iff_append.mpr
        ⟨decide_eq_true ⟨hl, rfl⟩, before, after, hchanges, unnamed_iff.mp hafter⟩
    rw [hlast]
    rfl

/-- A name is entered for a locale that is served from then on. -/
theorem LastNamed.supports (h : LastNamed changes d key name) :
    (filled changes).supports d = true := by
  obtain ⟨before, l, after, rfl, hl, -⟩ := h
  exact supports_filled_iff.mpr (Or.inr ⟨.enter l key name, by simp, hl⟩)

theorem name?_filled_eq_some_iff :
    (filled changes).name? m key = some name ↔
      ∃ before d after, m.candidates = before ++ d :: after ∧ LastNamed changes d key name ∧
        (∀ e ∈ before, Unnamed changes e key) ∧ (filled changes).supports d = true := by
  simp only [name?, List.findSome?_eq_some_iff, entered?_filled_eq_some_iff,
    entered?_filled_eq_none_iff]
  constructor
  · rintro ⟨before, d, after, hm, hd, hbefore⟩
    exact ⟨before, d, after, hm, hd, hbefore, hd.supports⟩
  · rintro ⟨before, d, after, hm, hd, hbefore, -⟩
    exact ⟨before, d, after, hm, hd, hbefore⟩

/-! ## As an adapter -/

section Adapter

variable {σ : Type}

/-- The support test of a table is the one that its list gives. -/
theorem test_toAdapter (t : NameTable) (label : String) (whom : Addressee) (m : Locale)
    (s : Session σ) :
    (s.test (t.toAdapter label : Adapter σ (Option NameTable)) whom m).1 = t.supports m ∧
      (s.test { (t.toAdapter label : Adapter σ (Option NameTable)) with support := .derived }
        whom m).1 = t.supports m := by
  refine ⟨rfl, ?_⟩
  unfold Session.test
  dsimp only
  split
  · rename_i hm
    exact (Locale.isCoveredBy_iff.mpr (Or.inl hm)).symm
  · rfl

/-- What a table answers after any changes. It lists their locales, each at its first mention.
    It serves the root and what has the base fields of one of them, as its list alone would
    have it. And a name is found from a locale exactly if it is the last one entered for a
    candidate and the key, none is entered for the candidates before it, and the table
    serves that candidate. -/
theorem filled_answers (changes : List Change) (label : String) (whom : Addressee)
    (s : Session σ) :
    let t := filled changes
    let a : Adapter σ (Option NameTable) := t.toAdapter label
    (∀ purpose, (s.list a whom purpose).1 = (changes.map Change.locale).eraseDups) ∧
    (∀ m, ((s.test a whom m).1 = true ↔
        m.bare = .root ∨ ∃ c ∈ changes, c.locale.bare = m.bare) ∧
      (s.test a whom m).1 = (s.test { a with support := .derived } whom m).1) ∧
    ∀ m key name, t.name? m key = some name ↔
      ∃ before d after, m.candidates = before ++ d :: after ∧ LastNamed changes d key name ∧
        (∀ e ∈ before, Unnamed changes e key) ∧ (s.test a whom d).1 = true := by
  intro t a
  refine ⟨fun _ => locales_filled changes, fun m => ⟨supports_filled_iff, ?_⟩,
    fun m key name => name?_filled_eq_some_iff⟩
  obtain ⟨hown, hderived⟩ := t.test_toAdapter label whom m s
  rw [hown, hderived]

end Adapter

/-- Canadian French is declared twice, once with an extension, and French is named twice in
    English. The later name is found from Canadian French, and Belgian French is not served. -/
theorem filled_answers_french :
    let french := Locale.ofLanguage "fr"
    let canadian := Locale.unscripted "fr" "CA" ""
    let extended := canadian.withExtension 'u' "nu-latn"
    let belgian := Locale.unscripted "fr" "BE" ""
    let changes : List Change := [.declare extended, .enter french "en" "francais",
      .enter french "de" "Französisch", .declare canadian, .enter french "en" "français",
      .declare extended]
    let a : Adapter Unit (Option NameTable) := (filled changes).toAdapter "names"
    let whom : Addressee := ⟨.localeName, .builtin, "names"⟩
    let s : Session Unit := .start ()
    (s.list a whom .availability).1 = [extended, french, canadian] ∧
      (s.test a whom extended).1 = true ∧ ¬ (s.test a whom belgian).1 = true ∧
      Unnamed changes canadian "en" ∧ LastNamed changes french "en" "français" ∧
      (filled changes).name? canadian "en" = some "français" := by
  intro french canadian extended belgian changes a whom s
  obtain ⟨hlists, htests, hnames⟩ := filled_answers changes "names" whom s
  have hlisted : (changes.map Change.locale).eraseDups = [extended, french, canadian] := by decide
  have hfree : Unnamed changes canadian "en" := unnamed_iff.mpr (by decide)
  have hlast : LastNamed changes french "en" "français" :=
    ⟨changes.take 4, french, changes.drop 5, by decide, rfl, unnamed_iff.mpr (by decide)⟩
  have hchain : canadian.candidates = [canadian] ++ french :: [.root] := by decide
  refine ⟨(hlists _).trans hlisted, (htests extended).1.mpr (Or.inr ⟨.declare canadian, ?_, ?_⟩),
    mt (htests belgian).1.mp ?_, hfree, hlast, (hnames canadian "en" "français").mpr
      ⟨[canadian], french, [.root], hchain, hlast, ?_, (htests french).1.mpr (Or.inr ?_)⟩⟩
  · decide
  · exact (canadian.bare_withExtension 'u' "nu-latn").symm
  · decide
  · exact fun e he => List.mem_singleton.mp he ▸ hfree
  · exact ⟨.enter french "en" "français", by decide, rfl⟩

end NameTable

end LocaleServices

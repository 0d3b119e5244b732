import LocaleServices.Adapter.Basic
import LocaleServices.Locale.Candidates
import LocaleServices.Table

/-!
  Tables of localized names.

  A name is entered for a locale and a key, and found for every locale whose candidates
  include it; extensions play no part on either side. `locales` lists the locales that were
  declared or given a name, each once, in the order in which they came.
-/

namespace LocaleServices

structure NameTable where
  locales : List Locale
  names : Table (Locale × String) String

namespace NameTable

def empty : NameTable := ⟨[], .empty⟩

/-- Declares a locale as served. -/
def declare (t : NameTable) (l : Locale) : NameTable :=
  if l ∈ t.locales then t else { t with locales := t.locales ++ [l] }

/-- Enters a name, over an earlier one for the same base fields and key. -/
def enter (t : NameTable) (l : Locale) (key name : String) : NameTable :=
  { t.declare l with names := t.names.insert (l.bare, key) name }

/-- The name entered for exactly these base fields. -/
def entered? (t : NameTable) (l : Locale) (key : String) : Option String :=
  t.names.find? (l.bare, key)

/-- The name for a key, searched from a locale towards the root. -/
def name? (t : NameTable) (l : Locale) (key : String) : Option String :=
  l.candidates.findSome? fun d => t.entered? d key

def supports (t : NameTable) (l : Locale) : Bool := l.isCoveredBy t.locales

/-- The name for a key; nothing without a key. -/
def lookup (t : NameTable) (l : Locale) (key : Option String) : Option String :=
  key.bind (t.name? l)

/-! ## As an adapter -/

/-- An adapter over the table that never changes. -/
def toAdapter {σ : Type} (t : NameTable) (label : String) : Adapter σ (Option NameTable) where
  label := label
  provider := some t
  listing := fun w => (t.locales, w)
  support := .own fun l w => (t.supports l, w)

/-- Looks a name up in the table behind an adapter; an adapter without one has no names. -/
def getter {σ : Type} : Getter σ (Option NameTable) String :=
  fun a l key w => (a.provider.bind fun t => t.lookup l key, w)

/-! ## Laws -/

theorem locales_declare (t : NameTable) (l : Locale) :
    (t.declare l).locales = if l ∈ t.locales then t.locales else t.locales ++ [l] := by
  unfold declare
  split <;> rfl

theorem mem_locales_declare {t : NameTable} {l m : Locale} :
    m ∈ (t.declare l).locales ↔ m ∈ t.locales ∨ m = l := by
  rw [locales_declare]
  split
  · rename_i h
    exact ⟨Or.inl, fun h' => h'.elim id fun e => e ▸ h⟩
  · rw [List.mem_append, List.mem_singleton]

theorem entered?_declare (t : NameTable) (l m : Locale) (key : String) :
    (t.declare l).entered? m key = t.entered? m key := by
  unfold declare
  split <;> rfl

theorem entered?_enter (t : NameTable) (l m : Locale) (key q name : String) :
    (t.enter l key name).entered? m q =
      if l.bare = m.bare ∧ key = q then some name else t.entered? m q := by
  simp only [entered?, enter, Table.find?_insert, Prod.mk.injEq]

end NameTable

end LocaleServices

import LocaleServices.Adapter.Basic
import LocaleServices.Adapter.Preference
import LocaleServices.Table

/-!
  Catalogs: sources with a fixed table of adapters.

  An adapter is registered for a kind and a category, or for a kind in every category; a
  later registration takes the place of an earlier one (`find?_register`).
-/

namespace LocaleServices

structure Catalog (σ δ : Type) where
  preference : List Kind
  adapters : Table (Kind × Category) (Adapter σ δ)

namespace Catalog

variable {σ δ : Type}

/-- A catalog without adapters. -/
def empty (preference : List Kind) : Catalog σ δ := ⟨preference, .empty⟩

def register (t : Catalog σ δ) (k : Kind) (c : Category) (a : Adapter σ δ) : Catalog σ δ :=
  { t with adapters := t.adapters.insert (k, c) a }

/-- Registers one adapter for every category. -/
def registerAll (t : Catalog σ δ) (k : Kind) (a : Adapter σ δ) : Catalog σ δ :=
  Category.all.foldl (fun t c => t.register k c a) t

def find? (t : Catalog σ δ) (k : Kind) (c : Category) : Option (Adapter σ δ) :=
  t.adapters.find? (k, c)

/-- The catalog as a source that calls back the first `callbacks` times it is asked. -/
def toSource (t : Catalog σ δ) (callbacks : Nat) : Source σ δ where
  preference := fun w => (t.preference, w)
  adapterFor := fun k c w => (t.find? k c, w)
  callbacks := callbacks

theorem find?_register (t : Catalog σ δ) (k k' : Kind) (c c' : Category) (a : Adapter σ δ) :
    (t.register k c a).find? k' c' = if k = k' ∧ c = c' then some a else t.find? k' c' := by
  simp only [find?, register, Table.find?_insert, Prod.mk.injEq]

theorem find?_registerAll (t : Catalog σ δ) (k k' : Kind) (c' : Category) (a : Adapter σ δ) :
    (t.registerAll k a).find? k' c' = if k = k' then some a else t.find? k' c' := by
  have run : ∀ (cs : List Category) (t : Catalog σ δ),
      (cs.foldl (fun t c => t.register k c a) t).find? k' c' =
        if k = k' ∧ c' ∈ cs then some a else t.find? k' c' := by
    intro cs
    induction cs with
    | nil => simp
    | cons c cs ih =>
      intro t
      rw [List.foldl_cons, ih, find?_register]
      by_cases hk : k = k'
      · by_cases hc : c' ∈ cs
        · simp [hk, hc]
        · by_cases he : c = c'
          · simp [hk, hc, he]
          · have he' : c' ≠ c := fun e => he e.symm
            simp [hk, hc, he, he']
      · simp [hk]
  simp [registerAll, run, Category.mem_all]

end Catalog

end LocaleServices

import LocaleServices.Adapter.Kind
import LocaleServices.Category
import LocaleServices.Locale.Basic

/-!
  Adapters and where they come from.

  An adapter lists the locales it has data for and says which locales it serves, with a test
  of its own or one derived from its list. Both may change with the surrounding world `σ`,
  so each takes a world and gives back the next one. `δ` is what stands behind an adapter; a
  `Getter` reaches into it for the data of a request. A source names the kinds of adapter in
  order of preference and hands out one adapter for a kind and a category.
-/

namespace LocaleServices

/-- Whether a locale is the bare root or has the base fields of a listed locale. -/
def Locale.isCoveredBy (l : Locale) (listed : List Locale) : Bool :=
  l.bare = .root || listed.any fun m => m.bare = l.bare

/-- How an adapter decides which locales it serves: from its list, or by a test of its own. -/
inductive Support (σ : Type)
  | derived
  | own (test : Locale → σ → Bool × σ)

structure Adapter (σ δ : Type) where
  label : String
  provider : δ
  listing : σ → List Locale × σ
  support : Support σ

/-- Asks an adapter for the datum that a locale and a key stand for. -/
abbrev Getter (σ δ α : Type) := Adapter σ δ → Locale → Option String → σ → Option α × σ

/-- Hands out adapters. While `callbacks` are due, each request for an adapter first makes
    the source ask for the registry of the same category itself. -/
structure Source (σ δ : Type) where
  preference : σ → List Kind × σ
  adapterFor : Kind → Category → σ → Option (Adapter σ δ) × σ
  callbacks : Nat

theorem Locale.isCoveredBy_iff {l : Locale} {listed : List Locale} :
    l.isCoveredBy listed = true ↔ l.bare = .root ∨ ∃ m ∈ listed, m.bare = l.bare := by
  simp [isCoveredBy]

theorem Locale.isCoveredBy_root (listed : List Locale) : root.isCoveredBy listed = true := by
  simp [isCoveredBy, root, bare]

end LocaleServices

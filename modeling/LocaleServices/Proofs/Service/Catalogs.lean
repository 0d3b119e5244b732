import LocaleServices.Adapter.Catalog
import LocaleServices.Adapter.NameTable
import LocaleServices.Proofs.Service.Roster

/-!
  What catalogs and name tables offer.

  A catalog always answers the same (`isFixed_toSource`), so a property of every adapter in
  it (`Catalog.All`) is one of every adapter that its source hands out. `registerEach` puts
  adapters into a category; in free slots they come in addition to those that were there
  (`pads_registerEach`).
-/

namespace LocaleServices

variable {σ δ : Type}

/-! ## Name tables -/

namespace NameTable

theorem listing_toAdapter (t : NameTable) (label : String) (w : σ) :
    ((t.toAdapter label).listing w).1 = t.locales := rfl

theorem serves_toAdapter (t : NameTable) (label : String) (w : σ) (l : Locale) :
    (t.toAdapter label).serves w l = t.supports l := rfl

theorem isSteady_toAdapter (t : NameTable) (label : String) :
    (t.toAdapter label : Adapter σ (Option NameTable)).IsSteady :=
  ⟨fun _ _ => rfl, fun _ _ _ => rfl⟩

theorem supports_root (t : NameTable) : t.supports .root = true :=
  Locale.isCoveredBy_root t.locales

end NameTable

/-! ## Catalogs -/

namespace Catalog

variable {t : Catalog σ δ} {P : Adapter σ δ → Prop}

/-- A property of every adapter in a catalog. -/
def All (P : Adapter σ δ → Prop) (t : Catalog σ δ) : Prop :=
  ∀ k c a, t.find? k c = some a → P a

theorem all_empty (preference : List Kind) : (empty preference : Catalog σ δ).All P := by
  intro k c a h
  cases h

theorem All.register (h : t.All P) {a : Adapter σ δ} (ha : P a) (k : Kind) (c : Category) :
    (t.register k c a).All P := by
  intro k' c' a' hf
  rw [find?_register] at hf
  split at hf
  · cases hf
    exact ha
  · exact h k' c' a' hf

theorem All.registerAll (h : t.All P) {a : Adapter σ δ} (ha : P a) (k : Kind) :
    (t.registerAll k a).All P := by
  intro k' c' a' hf
  rw [find?_registerAll] at hf
  split at hf
  · cases hf
    exact ha
  · exact h k' c' a' hf

theorem isFixed_toSource (t : Catalog σ δ) (n : Nat) : (t.toSource n).IsFixed :=
  ⟨fun _ _ => rfl, fun _ _ _ _ => rfl⟩

theorem All.of_handsOut (h : t.All P) {n : Nat} {a : Adapter σ δ}
    (ha : (t.toSource n).HandsOut a) : P a := by
  obtain ⟨k, c, _, ha⟩ := ha
  exact h k c a ha

/-- The source of a catalog hands out what is in it. -/
theorem all_of_forall_handsOut {n : Nat} (w : σ) (h : ∀ a, (t.toSource n).HandsOut a → P a) :
    t.All P :=
  fun k c a ha => h a ⟨k, c, w, ha⟩

theorem isSteady_toSource (h : t.All Adapter.IsSteady) (n : Nat) : (t.toSource n).IsSteady :=
  fun _ ha => h.of_handsOut ha

/-- The entries of a roster that a catalog's source offers. -/
theorem mem_entries_of_offers {n : Nat} {c : Category} {u : Roster σ δ}
    (h : (t.toSource n).Offers c u) {k : Kind} {a : Adapter σ δ} :
    (k, a) ∈ u.entries ↔ k ∈ Preference.complete t.preference ∧ t.find? k c = some a := by
  obtain ⟨w, hw⟩ := h.preference
  rw [Roster.entries, Roster.mem_among, hw]
  constructor
  · rintro ⟨hk, ha⟩
    obtain ⟨v, hv⟩ := h.asked k (hw ▸ hk)
    exact ⟨hk, hv.symm.trans ha⟩
  · rintro ⟨hk, ha⟩
    obtain ⟨v, hv⟩ := h.asked k (hw ▸ hk)
    exact ⟨hk, hv.trans ha⟩

/-! ### More adapters -/

/-- Registers adapters for one category, in order. -/
def registerEach (t : Catalog σ δ) (c : Category) (added : List (Kind × Adapter σ δ)) :
    Catalog σ δ :=
  added.foldl (fun t e => t.register e.1 c e.2) t

@[simp] theorem preference_registerEach (t : Catalog σ δ) (c : Category)
    (added : List (Kind × Adapter σ δ)) : (t.registerEach c added).preference = t.preference := by
  induction added generalizing t with
  | nil => rfl
  | cons e added ih => exact ih (t.register e.1 c e.2)

/-- Registering leaves a slot as it was or fills it with an added adapter. -/
theorem find?_registerEach (t : Catalog σ δ) (c : Category) (added : List (Kind × Adapter σ δ))
    (k : Kind) (c' : Category) :
    (t.registerEach c added).find? k c' = t.find? k c' ∨
      ∃ a, (k, a) ∈ added ∧ c = c' ∧ (t.registerEach c added).find? k c' = some a := by
  induction added generalizing t with
  | nil => exact Or.inl rfl
  | cons e added ih =>
    have hstep : t.registerEach c (e :: added) =
        (t.register e.1 c e.2).registerEach c added := rfl
    rw [hstep]
    rcases ih (t.register e.1 c e.2) with h | ⟨a, ha, hc, hf⟩
    · rw [h, find?_register]
      by_cases he : e.1 = k ∧ c = c'
      · obtain ⟨rfl, rfl⟩ := he
        exact Or.inr ⟨e.2, List.mem_cons_self, rfl, by simp⟩
      · exact Or.inl (if_neg he)
    · exact Or.inr ⟨a, List.mem_cons_of_mem _ ha, hc, hf⟩

theorem All.registerEach (h : t.All P) {added : List (Kind × Adapter σ δ)}
    (ha : ∀ e ∈ added, P e.2) (c : Category) : (t.registerEach c added).All P := by
  intro k c' a hf
  rcases t.find?_registerEach c added k c' with he | ⟨b, hb, _, he⟩
  · exact h k c' a (he.symm.trans hf)
  · cases he.symm.trans hf
    exact ha (k, a) hb

/-- Adapters registered in free slots come in addition to those that were there. -/
theorem pads_registerEach {n n' : Nat} {c : Category} {added : List (Kind × Adapter σ δ)}
    {u u' : Roster σ δ} (hu : (t.toSource n).Offers c u)
    (hu' : ((t.registerEach c added).toSource n').Offers c u')
    (hfree : ∀ e ∈ added, t.find? e.1 c = none) (ha : ∀ e ∈ added, P e.2) : u'.Pads u P where
  kept := fun (k, a) he => by
    rw [mem_entries_of_offers hu] at he
    rw [mem_entries_of_offers hu', preference_registerEach]
    refine ⟨he.1, ?_⟩
    rcases t.find?_registerEach c added k c with h | ⟨b, hb, _, _⟩
    · exact h.trans he.2
    · cases (hfree (k, b) hb).symm.trans he.2
  added := fun (k, a) he => by
    rw [mem_entries_of_offers hu', preference_registerEach] at he
    rw [mem_entries_of_offers hu]
    rcases t.find?_registerEach c added k c with h | ⟨b, hb, _, h⟩
    · exact Or.inl ⟨he.1, h.symm.trans he.2⟩
    · cases h.symm.trans he.2
      exact Or.inr (ha (k, a) hb)

end Catalog

end LocaleServices

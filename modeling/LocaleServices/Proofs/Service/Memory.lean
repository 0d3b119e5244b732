import LocaleServices.Proofs.Service.Kept

/-!
  What registries remember, when adapters always answer the same.

  `Registry.IsFaithful` says that remembered kinds are those whose adapter serves the locale
  and that remembered locales are the keys of what adapters list, without the root. Over a
  steady source every registry in use is faithful (`kept_isFaithful`), so asking a registry
  gives what asking its roster would give (`IsFaithful.kindsFor_eq`,
  `IsFaithful.mem_availableLocales`), and so it is with a pool after any use
  (`Pool.Reachable.kindsFor_eq`, `Pool.Reachable.mem_availableLocales`). Nobody is asked for
  data.
-/

namespace LocaleServices.Registry

variable {σ δ : Type} {src : Source σ δ} {c : Category} {r : Registry σ δ}

/-! ## Kinds that serve a locale -/

theorem serving_cons_of_none {k : Kind} (h : r.roster.adapter? k = none) (l : Locale)
    (ks : List Kind) (s : Session σ) : r.serving l (k :: ks) s = r.serving l ks s := by
  have hk : r.adapter? k = none := h
  simp only [serving, hk]

theorem serving_cons_of_some {k : Kind} {a : Adapter σ δ} (h : r.roster.adapter? k = some a)
    (l : Locale) (ks : List Kind) (s : Session σ) :
    r.serving l (k :: ks) s =
      let answer := s.test a (r.addressee k a) l
      let more := r.serving l ks answer.2
      (if answer.1 then k :: more.1 else more.1, more.2) := by
  have hk : r.adapter? k = some a := h
  simp only [serving, hk]

/-- The kinds that are found are those that serve the locale, in whatever world. -/
theorem serving_eq (l : Locale) (w : σ) {ks : List Kind}
    (hks : ∀ e ∈ r.roster.among ks, e.2.IsSteady) (s : Session σ) :
    (r.serving l ks s).1 =
      ((r.roster.among ks).filter fun e => e.2.serves w l).map Prod.fst := by
  induction ks generalizing s with
  | nil => rfl
  | cons k ks ih =>
    cases ha : r.roster.adapter? k with
    | none =>
      rw [Roster.among_cons_of_none ha] at hks ⊢
      rw [serving_cons_of_none ha]
      exact ih hks s
    | some a =>
      rw [Roster.among_cons_of_some ha] at hks ⊢
      rw [serving_cons_of_some ha]
      have hsteady := hks (k, a) List.mem_cons_self
      have hrest := ih (fun e he => hks e (List.mem_cons_of_mem _ he))
        (s.test a (r.addressee k a) l).2
      dsimp only
      rw [hrest, Session.test_eq, hsteady.serves s.world w l, List.filter_cons]
      split <;> rfl

theorem serving_quiet (l : Locale) {ks : List Kind}
    (hks : ∀ e ∈ r.roster.among ks, src.HandsOut e.2) (s : Session σ) :
    s.Quiet src (r.serving l ks s).2 := by
  induction ks generalizing s with
  | nil => exact .refl src s
  | cons k ks ih =>
    cases ha : r.roster.adapter? k with
    | none =>
      rw [Roster.among_cons_of_none ha] at hks
      rw [serving_cons_of_none ha]
      exact ih hks s
    | some a =>
      rw [Roster.among_cons_of_some ha] at hks
      rw [serving_cons_of_some ha]
      have htest := Session.quiet_test (hks (k, a) List.mem_cons_self) (r.addressee k a) l s
      exact htest.trans (ih (fun e he => hks e (List.mem_cons_of_mem _ he)) _)

/-! ## Listed locales -/

theorem quiet_reportDegradation (src : Source σ δ) (s : Session σ) (l : Locale) :
    s.Quiet src (reportDegradation s l) := by
  unfold reportDegradation
  split
  · exact (Session.quiet_say src s _).trans (Session.quiet_count src _ _)
  · exact .refl src s

theorem quiet_reportDegradations (src : Source σ δ) (ls : List Locale) (s : Session σ) :
    s.Quiet src (ls.foldl reportDegradation s) := by
  induction ls generalizing s with
  | nil => exact .refl src s
  | cons l ls ih => exact (quiet_reportDegradation src s l).trans (ih _)

/-- The collected keys are those of what the adapters list, in whatever world. -/
theorem mem_collectKeys (w : σ) {es : List (Kind × Adapter σ δ)} (hes : ∀ e ∈ es, e.2.IsSteady)
    (s : Session σ) (d : Locale) :
    d ∈ (r.collectKeys es s).1 ↔
      ∃ e ∈ es, ∃ m ∈ (e.2.listing w).1, m.availabilityKey = d := by
  induction es generalizing s with
  | nil => simp [collectKeys]
  | cons e es ih =>
    have hlisted : (s.list e.2 (r.addressee e.1 e.2) .availability).1 = (e.2.listing w).1 :=
      (hes e List.mem_cons_self).listing s.world w
    unfold collectKeys
    simp only [List.mem_append, List.mem_map, List.mem_cons, hlisted]
    rw [ih fun e he => hes e (List.mem_cons_of_mem _ he)]
    simp only [or_and_right, exists_or, exists_eq_left]

theorem collectKeys_quiet (r : Registry σ δ) {es : List (Kind × Adapter σ δ)}
    (hes : ∀ e ∈ es, src.HandsOut e.2) (s : Session σ) : s.Quiet src (r.collectKeys es s).2 := by
  induction es generalizing s with
  | nil => exact .refl src s
  | cons e es ih =>
    have hlist := Session.quiet_list (hes e List.mem_cons_self) (r.addressee e.1 e.2)
      .availability s
    exact (hlist.trans (quiet_reportDegradations src _ _)).trans
      (ih (fun e he => hes e (List.mem_cons_of_mem _ he)) _)

/-! ## The memory -/

/-- What is remembered is what the roster says, in every world. -/
structure IsFaithful (src : Source σ δ) (c : Category) (r : Registry σ δ) : Prop
    extends MadeFor src c r where
  kinds : ∀ {l ks}, r.kindsByLocale.find? l = some ks →
    ∀ w, ks = (r.roster.serving w l).map Prod.fst
  locales : ∀ {ls}, r.available = some ls →
    ∀ w d, d ∈ ls ↔ d ≠ .root ∧ r.roster.lists w d = true

theorem MadeFor.mem_adapters_iff (h : r.MadeFor src c) {e : Kind × Adapter σ δ} :
    e ∈ r.adapters.entries ↔ e ∈ r.roster.entries :=
  (Table.mem_entries_iff h.distinct).trans h.offers.mem_entries_iff.symm

/-- The kinds found by asking, as the roster has them. -/
theorem MadeFor.serving_eq (h : r.MadeFor src c) (hs : src.IsSteady) (w : σ) (l : Locale)
    (s : Session σ) :
    (r.serving l r.preference s).1 = (r.roster.serving w l).map Prod.fst :=
  Registry.serving_eq l w (fun _ he => h.offers.steady hs he) s

/-- The locales found by asking, as the roster has them. -/
theorem MadeFor.mem_keys_iff (h : r.MadeFor src c) (hs : src.IsSteady) (w : σ) (s : Session σ)
    (d : Locale) :
    d ∈ (Ascending.ofList (r.collectKeys r.adapters.entries s).1).filter (· ≠ .root) ↔
      d ≠ .root ∧ r.roster.lists w d = true := by
  have hsteady : ∀ e ∈ r.adapters.entries, e.2.IsSteady := fun e he =>
    h.offers.steady hs (h.mem_adapters_iff.mp he)
  rw [List.mem_filter, Ascending.mem_ofList, mem_collectKeys w hsteady, Roster.lists_iff,
    decide_eq_true_iff, and_comm]
  simp only [h.mem_adapters_iff]

/-- Over a steady source every registry stays faithful. -/
theorem kept_isFaithful (hs : src.IsSteady) : Kept src (IsFaithful src) where
  new := fun h =>
    { toMadeFor := h.toMadeFor
      kinds := fun hf => by
        rw [h.kindsByLocale] at hf
        cases hf
      locales := fun ha => by
        rw [h.available] at ha
        cases ha }
  availableLocales := fun {c r} s h => by
    unfold availableLocales
    split
    · exact h
    · refine ⟨h.toMadeFor.of_same rfl rfl rfl, h.kinds, fun ha w d => ?_⟩
      cases ha
      exact h.mem_keys_iff hs w _ d
  kindsFor := fun {c r} l s h => by
    unfold kindsFor
    split
    · exact h
    · refine ⟨h.toMadeFor.of_same rfl rfl rfl, fun {l' ks} hf w => ?_, h.locales⟩
      rw [Table.find?_insert] at hf
      split at hf
      · rename_i he
        cases hf
        exact he ▸ h.toMadeFor.serving_eq hs w l _
      · exact h.kinds hf w

/-! ## What a registry answers -/

theorem IsFaithful.kindsFor_eq (h : r.IsFaithful src c) (hs : src.IsSteady) (w : σ) (l : Locale)
    (s : Session σ) : (r.kindsFor l s).1 = (r.roster.serving w l).map Prod.fst := by
  unfold kindsFor
  split
  · rename_i hf
    exact h.kinds hf w
  · exact h.toMadeFor.serving_eq hs w l _

theorem IsFaithful.mem_availableLocales (h : r.IsFaithful src c) (hs : src.IsSteady) (w : σ)
    (s : Session σ) (d : Locale) :
    d ∈ (r.availableLocales s).1 ↔ d ≠ .root ∧ r.roster.lists w d = true := by
  unfold availableLocales
  split
  · rename_i ha
    exact h.locales ha w d
  · exact h.mem_keys_iff hs w _ d

theorem MadeFor.kindsFor_quiet (h : r.MadeFor src c) (l : Locale) (s : Session σ) :
    s.Quiet src (r.kindsFor l s).2.2 := by
  unfold kindsFor
  split
  · exact Session.quiet_count src s .kindsHit
  · exact (Session.quiet_count src s .kindsMiss).trans
      (serving_quiet l (fun _ he => h.offers.handsOut he) _)

theorem MadeFor.availableLocales_quiet (h : r.MadeFor src c) (s : Session σ) :
    s.Quiet src (r.availableLocales s).2.2 := by
  unfold availableLocales
  split
  · exact .refl src s
  · have hkeys := r.collectKeys_quiet
      (fun e he => h.offers.handsOut (h.mem_adapters_iff.mp he))
      (s.count .availabilityComputation)
    exact ((Session.quiet_count src s _).trans hkeys).trans (Session.quiet_say src _ _)

end LocaleServices.Registry

namespace LocaleServices.Pool.Reachable

variable {σ δ : Type} {src : Source σ δ} {p : Pool src}

/-! ## Pools -/

theorem offers (hp : p.Reachable) (c : Category) : src.Offers c (p.registry c).1.roster :=
  ((Registry.kept_madeFor src).registry hp c).offers

theorem kindsFor_eq (hp : p.Reachable) (hs : src.IsSteady) (w : σ) (c : Category) (l : Locale) :
    (p.kindsFor c l).1 = ((p.registry c).1.roster.serving w l).map Prod.fst :=
  ((Registry.kept_isFaithful hs).registry hp c).kindsFor_eq hs w l (p.registry c).2.session

theorem mem_availableLocales (hp : p.Reachable) (hs : src.IsSteady) (w : σ) (c : Category)
    (d : Locale) :
    d ∈ (p.availableLocales c).1 ↔ d ≠ .root ∧ (p.registry c).1.roster.lists w d = true :=
  ((Registry.kept_isFaithful hs).registry hp c).mem_availableLocales hs w
    (p.registry c).2.session d

end LocaleServices.Pool.Reachable

import LocaleServices.Proofs.Service.Frozen
import LocaleServices.Proofs.Service.Gate
import Mathlib.Algebra.GroupWithZero.Nat

/-!
  What exactly is available, and what finding it out counts.

  Over a steady source the available locales of a category are the keys of what its adapters
  list, without the root, in strictly ascending order (`kept_isAscending`), so they depend
  only on which locales are listed. `Locale.degrades` says that the extensions of a listed
  locale cannot be cleared; each computation counts those that do, every listing of each
  adapter once (`degraded_collectKeys`), and nothing else counts any (`Step.degraded`). Main
  statement: `Pool.availableLocales_exact`.
-/

namespace LocaleServices

variable {σ δ : Type} {src : Source σ δ}

/-! ## Degraded locales -/

/-- Whether a locale has extensions to be cleared, and a field that keeps them from it. -/
def Locale.degrades (l : Locale) : Bool :=
  l.hasExtensions && !l.isIrregular && l.modernized.fault?.isSome

theorem Locale.isSome_degradation? (l : Locale) : l.degradation?.isSome = l.degrades := by
  unfold degradation? degrades isPlain
  cases l.hasExtensions <;> cases l.isIrregular <;> simp

/-- How many listed locales degrade, every listing of each registered adapter counted. -/
def Roster.degradations (u : Roster σ δ) (w : σ) : Nat :=
  (u.entries.map fun e => (e.2.listing w).1.countP Locale.degrades).sum

/-- How many locales degraded when the available locales were found out. -/
def Registry.degraded (w : σ) (r : Registry σ δ) : Nat :=
  if r.available.isSome then r.roster.degradations w else 0

namespace Registry

theorem degraded_reportDegradation (s : Session σ) (l : Locale) :
    (reportDegradation s l).counters.degradedNormalizations =
      s.counters.degradedNormalizations + if l.degrades then 1 else 0 := by
  rw [← l.isSome_degradation?]
  unfold reportDegradation
  cases l.degradation? <;> rfl

theorem degraded_reportDegradations (ls : List Locale) (s : Session σ) :
    (ls.foldl reportDegradation s).counters.degradedNormalizations =
      s.counters.degradedNormalizations + ls.countP Locale.degrades := by
  induction ls generalizing s with
  | nil => rfl
  | cons l ls ih =>
    rw [List.foldl_cons, ih, degraded_reportDegradation, List.countP_cons, Nat.add_assoc,
      Nat.add_comm (ls.countP _)]

/-- Collecting keys counts the degraded locales of every list, in whatever world. -/
theorem degraded_collectKeys (r : Registry σ δ) (w : σ) {es : List (Kind × Adapter σ δ)}
    (hes : ∀ e ∈ es, e.2.IsSteady) (s : Session σ) :
    (r.collectKeys es s).2.counters.degradedNormalizations =
      s.counters.degradedNormalizations +
        (es.map fun e => (e.2.listing w).1.countP Locale.degrades).sum := by
  induction es generalizing s with
  | nil => rfl
  | cons e es ih =>
    have hlisted : (s.list e.2 (r.addressee e.1 e.2) .availability).1 = (e.2.listing w).1 :=
      (hes e List.mem_cons_self).listing s.world w
    unfold collectKeys
    dsimp only
    rw [ih fun e he => hes e (List.mem_cons_of_mem _ he), degraded_reportDegradations, hlisted,
      List.map_cons, List.sum_cons, Nat.add_assoc]
    rfl

/-! ## One computation -/

/-- The registered adapters, in the order of the source and in that of the ranking. -/
theorem MadeFor.entries_perm {c : Category} {r : Registry σ δ} (h : r.MadeFor src c) :
    r.adapters.entries.Perm r.roster.entries := by
  have hnodup : ∀ {es : List (Kind × Adapter σ δ)}, (es.map Prod.fst).Nodup → es.Nodup :=
    fun hk => List.Pairwise.of_map Prod.fst (fun _ _ hne he => hne (congrArg Prod.fst he)) hk
  rw [List.perm_ext_iff_of_nodup (hnodup h.distinct) (hnodup h.offers.nodup_kinds)]
  exact fun _ => h.mem_adapters_iff

/-- The registry as it would be before its available locales are found out, if its adapters
    were visited in another order. -/
def visiting (r : Registry σ δ) (es : List (Kind × Adapter σ δ)) : Registry σ δ :=
  { r with adapters := ⟨es⟩, available := none }

theorem pairwise_filter_ofList (keys : List Locale) :
    ((Ascending.ofList keys).filter (· ≠ .root)).Pairwise (compare · · = .lt) :=
  (Ascending.pairwise_ofList keys).filter _

/-- Remembered available locales are in strictly ascending order. -/
theorem kept_isAscending (src : Source σ δ) :
    Kept src fun _ r => ∀ ls, r.available = some ls → ls.Pairwise (compare · · = .lt) where
  new := fun h ls ha => by
    rw [h.available] at ha
    cases ha
  availableLocales := fun s h => by
    unfold availableLocales
    split
    · exact h
    · intro ls ha
      cases ha
      exact pairwise_filter_ofList _
  kindsFor := fun l s h => by
    unfold kindsFor
    split <;> exact h

/-- In whatever order the adapters are visited, the computation finds the keys of what they
    list, and counts what degrades. -/
theorem MadeFor.visiting_exact {c : Category} {r : Registry σ δ} (h : r.MadeFor src c)
    (hs : src.IsSteady) (w : σ) {es : List (Kind × Adapter σ δ)}
    (hes : es.Perm r.adapters.entries) (s : Session σ) :
    let found := (r.visiting es).availableLocales s
    found.1.Pairwise (compare · · = .lt) ∧
      (∀ d, d ∈ found.1 ↔ d ≠ .root ∧ r.roster.lists w d = true) ∧
      found.2.2.counters.degradedNormalizations =
        s.counters.degradedNormalizations + r.roster.degradations w := by
  have hperm : es.Perm r.roster.entries := hes.trans h.entries_perm
  have hsteady : ∀ e ∈ es, e.2.IsSteady := fun e he =>
    h.offers.steady hs (hperm.mem_iff.mp he)
  refine ⟨pairwise_filter_ofList _, fun d => ?_, ?_⟩
  · have hkeys := (r.visiting es).mem_collectKeys w hsteady (s.count .availabilityComputation) d
    simp only [availableLocales, visiting, List.mem_filter, Ascending.mem_ofList,
      decide_eq_true_iff, Roster.lists_iff] at hkeys ⊢
    rw [hkeys, and_comm]
    simp only [hperm.mem_iff]
  · have hcount := (r.visiting es).degraded_collectKeys w hsteady
      (s.count .availabilityComputation)
    rw [(hperm.map _).sum_nat] at hcount
    exact hcount

/-! ## Nothing else counts degraded locales -/

theorem degraded_kindsFor (r : Registry σ δ) (l : Locale) (s : Session σ) (w : σ) :
    (r.kindsFor l s).2.2.counters.degradedNormalizations = s.counters.degradedNormalizations ∧
      (r.kindsFor l s).2.1.degraded w = r.degraded w := by
  unfold kindsFor
  split
  · exact ⟨rfl, rfl⟩
  · have htests := congrArg Counters.degradedNormalizations
      (r.testing_serving l r.preference (s.count .kindsMiss)).counters
    exact ⟨htests, rfl⟩

theorem degraded_after_availableLocales (r : Registry σ δ) (s : Session σ) (w : σ) :
    (r.availableLocales s).2.1.degraded w = r.roster.degradations w := by
  unfold degraded
  rw [r.available_availableLocales s, Option.isSome_some, if_pos rfl, roster_availableLocales]

theorem MadeFor.degraded_availableLocales {c : Category} {r : Registry σ δ}
    (h : r.MadeFor src c) (hs : src.IsSteady) (w : σ) (s : Session σ) :
    (r.availableLocales s).2.2.counters.degradedNormalizations + r.degraded w =
      s.counters.degradedNormalizations + (r.availableLocales s).2.1.degraded w := by
  cases ha : r.available with
  | some ls => simp only [availableLocales, ha]
  | none =>
    have hself : r.visiting r.adapters.entries = r := by
      rw [visiting, ← ha]
    obtain ⟨-, -, hcount⟩ := h.visiting_exact hs w (.refl _) s
    have hbefore : r.degraded w = 0 := by simp [degraded, ha]
    rw [hself] at hcount
    rw [hcount, hbefore, r.degraded_after_availableLocales s w, Nat.add_zero]

/-- One step of work counts what degrades among the locales that it finds out. -/
theorem Step.degraded {c : Category} {x y : Registry σ δ × Session σ} {log : List Event}
    (h : Step c x log y) (hx : x.1.MadeFor src c) (hs : src.IsSteady) (w : σ) :
    y.2.counters.degradedNormalizations + x.1.degraded w =
      x.2.counters.degradedNormalizations + y.1.degraded w := by
  cases h with
  | start hway l r s => rcases hway with rfl | rfl <;> rfl
  | examine | report | fail | answered => rfl
  | @passed _ q k a r s hg =>
    unfold reportMissing
    cases q.expected <;> rfl
  | test k a l r s =>
    rw [(Session.testing_test a (r.addressee k a) l s).counters]
  | kinds l r s =>
    obtain ⟨hcount, hsame⟩ := r.degraded_kindsFor l s w
    rw [hcount, hsame]
  | available r s => exact hx.degraded_availableLocales hs w s

end Registry

/-! ## Pools -/

namespace Pool

/-- What degraded is counted once for each category whose available locales are known. -/
theorem History.degraded {past : List Event} {p : Pool src} (h : p.History past)
    (hs : src.IsSteady) (w : σ) :
    p.session.counters.degradedNormalizations = p.registries.total (Registry.degraded w) := by
  have hnew : ∀ {c : Category} {r : Registry σ δ}, r.IsNew src c → r.degraded w = 0 :=
    fun hr => by simp [Registry.degraded, hr.available]
  refine (h.invariant (I := fun past p => p.Recalls past ∧
    p.session.counters.degradedNormalizations = p.registries.total (Registry.degraded w))
    (fun v => ⟨recalls_fresh src v, rfl⟩) ?_).2
  rintro past p log p' hstep ⟨hrecalls, hcount⟩
  refine ⟨hrecalls.step hstep, ?_⟩
  cases hstep with
  | build hb => rw [hb.counters_eq, hb.total_eq hnew, hcount]
  | @work c r log done hf hw =>
    have hwork := hw.degraded (hrecalls.madeFor c r hf) hs w
    have htotal := Table.total_insert (Registry.degraded w) p.registries c done.1
    rw [hf, Option.map_some, Option.getD_some] at htotal
    simp only [afterWork] at hwork ⊢
    omega
  | known | unite => exact hcount

theorem Reachable.pairwise_availableLocales {p : Pool src} (hp : p.Reachable) (c : Category) :
    (p.availableLocales c).1.Pairwise (compare · · = .lt) := by
  -- The answer is what the registry remembers afterwards.
  have hafter : (p.availableLocales c).2.Reachable :=
    hp.perform (.available c : Request σ δ Unit)
  obtain ⟨r, hr, hanswer⟩ := Option.bind_eq_some_iff.mp (available?_availableLocales c p)
  exact (Registry.kept_isAscending src).holds hafter c r hr _ hanswer

/-- The available locales of a category over a steady source: in strictly ascending order,
    without the root, the keys of what its adapters list. They are the same in whatever order
    the adapters are visited, and in any other pool whose adapters list the same locales, in
    whatever order and how often they do. Each computation counts the listed locales that
    degrade, every listing of each adapter, and nothing else counts any. -/
theorem availableLocales_exact {p : Pool src} (hp : p.Reachable) (hs : src.IsSteady) (w : σ)
    (c : Category) :
    let r := (p.registry c).1
    let done := p.availableLocales c
    done.1.Pairwise (compare · · = .lt) ∧ .root ∉ done.1 ∧
      (∀ d, d ∈ done.1 ↔ d ≠ .root ∧ ∃ m, r.roster.Declares w m ∧ m.availabilityKey = d) ∧
      (∀ es, es.Perm r.adapters.entries → ∀ s,
        let found := (r.visiting es).availableLocales s
        found.1 = done.1 ∧ found.2.2.counters.degradedNormalizations =
          s.counters.degradedNormalizations + r.roster.degradations w) ∧
      (∀ {σ' δ' : Type} {src' : Source σ' δ'} {p' : Pool src'} (w' : σ') (c' : Category),
        p'.Reachable → src'.IsSteady →
        (∀ m, (p'.registry c').1.roster.Declares w' m ↔ r.roster.Declares w m) →
        (p'.availableLocales c').1 = done.1) ∧
      done.2.counters.degradedNormalizations = p.counters.degradedNormalizations +
        (if r.available.isSome then 0 else r.roster.degradations w) ∧
      p.counters.degradedNormalizations = p.registries.total (Registry.degraded w) := by
  intro r done
  have hmade : r.MadeFor src c := (Registry.kept_madeFor src).registry hp c
  have hascending : done.1.Pairwise (compare · · = .lt) := hp.pairwise_availableLocales c
  have hmem : ∀ d, d ∈ done.1 ↔ d ≠ .root ∧ r.roster.lists w d = true :=
    hp.mem_availableLocales hs w c
  obtain ⟨past, hpast⟩ := reachable_iff_exists_history.mp hp
  refine ⟨hascending, fun hroot => ((hmem _).mp hroot).1 rfl, fun d => ?_, ?_, ?_, ?_,
    hpast.degraded hs w⟩
  · rw [hmem, Roster.lists_iff_declares]
  · intro es hes s found
    obtain ⟨hsorted, hfound, hcount⟩ := hmade.visiting_exact hs w hes s
    exact ⟨Ascending.eq_of_mem_iff hsorted hascending fun d => (hfound d).trans (hmem d).symm,
      hcount⟩
  · intro σ' δ' src' p' w' c' hp' hs' hsame
    refine Ascending.eq_of_mem_iff (hp'.pairwise_availableLocales c') hascending fun d => ?_
    rw [hp'.mem_availableLocales hs' w', hmem, Roster.lists_iff_declares,
      Roster.lists_iff_declares]
    simp only [hsame, r]
  · have hcount := hmade.degraded_availableLocales hs w (p.registry c).2.session
    have hbefore : (p.registry c).2.session.counters = p.counters :=
      (builds_registry c p).counters_eq
    rw [r.degraded_after_availableLocales, hbefore] at hcount
    have hdone : done.2.counters.degradedNormalizations + r.degraded w =
        p.counters.degradedNormalizations + r.roster.degradations w := hcount
    unfold Registry.degraded at hdone
    split at hdone
    · rename_i ha
      rw [if_pos ha]
      omega
    · rename_i ha
      rw [if_neg ha]
      exact hdone

end Pool

/-! ## Two pools whose adapters list the same -/

/-- The locales that registered adapters list, repetitions kept. -/
def Roster.listed (u : Roster σ δ) (w : σ) : List Locale :=
  u.entries.flatMap fun e => (e.2.listing w).1

theorem Roster.declares_iff_mem_listed {u : Roster σ δ} {w : σ} {m : Locale} :
    u.Declares w m ↔ m ∈ u.listed w := by
  rw [listed, List.mem_flatMap]
  rfl

/-- An adapter that has these locales and nothing else. -/
def Demo.lister (label : String) (listed : List Locale) : Adapter Unit Unit :=
  ⟨label, (), fun w => (listed, w), .derived⟩

theorem Demo.isSteady_lister (label : String) (listed : List Locale) :
    (lister label listed).IsSteady := ⟨fun _ _ => rfl, fun _ _ _ => rfl⟩

/-- Serbian with an ill-formed variant and an extension. -/
def Demo.serbian : Locale := (Locale.ofFields "sr" "Latn" "RS" "x").withExtension 'u' "nu-latn"

/-- The built-in adapter and a plugin with these lists. -/
def Demo.listing (builtin plugin : List Locale) : Catalog Unit Unit :=
  ((Catalog.empty Kind.all).register .builtin .collator (lister "builtin" builtin)).register
    .plugin .collator (lister "plugin" plugin)

theorem Demo.isSteady_listing (builtin plugin : List Locale) (n : Nat) :
    ((listing builtin plugin).toSource n).IsSteady :=
  Catalog.isSteady_toSource (((Catalog.all_empty Kind.all).register
    (isSteady_lister "builtin" builtin) _ _).register (isSteady_lister "plugin" plugin) _ _) n

/-- Root, German twice under one key, and Serbian three times, which degrades each time; once
    more with the lists exchanged and nothing repeated. -/
theorem Pool.availableLocales_exact_serbian :
    let extended := Demo.german.withExtension 'u' "co-phonebk"
    let p := Pool.fresh ((Demo.listing [.root, Demo.serbian, Demo.serbian]
      [extended, Demo.german, Demo.serbian]).toSource 1) ()
    let p' := Pool.fresh ((Demo.listing [Demo.german, Demo.serbian, extended]
      [Demo.serbian, .root]).toSource 0) ()
    let r := (p.registry .collator).1
    let done := p.availableLocales .collator
    p.Reachable ∧ p'.Reachable ∧ done.1.Pairwise (compare · · = .lt) ∧ .root ∉ done.1 ∧
      (∀ d, d ∈ done.1 ↔ d ≠ .root ∧ ∃ m, r.roster.Declares () m ∧ m.availabilityKey = d) ∧
      done.1 = [Demo.german, .unscripted "sr" "RS" "x"] ∧
      r.adapters.entries.reverse.Perm r.adapters.entries ∧
      ((r.visiting r.adapters.entries.reverse).availableLocales p.session).1 = done.1 ∧
      (p'.availableLocales .collator).1 = done.1 ∧
      r.roster.degradations () = 3 ∧ done.2.counters.degradedNormalizations = 3 := by
  intro extended p p'
  dsimp only
  have hp : p.Reachable := .fresh ()
  have hp' : p'.Reachable := .fresh ()
  obtain ⟨hsorted, hroot, hmem, horder, hother, hcount, -⟩ := Pool.availableLocales_exact hp
    (Demo.isSteady_listing _ _ 1) () .collator
  have hreverse := List.reverse_perm (p.registry .collator).1.adapters.entries
  -- Both pairs of lists hold root, Serbian, and German with and without its extension.
  have hlisted : ∀ l ∈ (p'.registry .collator).1.roster.listed (),
      l ∈ (p.registry .collator).1.roster.listed () := by decide
  have hlisted' : ∀ l ∈ (p.registry .collator).1.roster.listed (),
      l ∈ (p'.registry .collator).1.roster.listed () := by decide
  have hsecond := hother () .collator hp' (Demo.isSteady_listing _ _ 0) fun m => by
    rw [Roster.declares_iff_mem_listed, Roster.declares_iff_mem_listed]
    exact ⟨hlisted m, hlisted' m⟩
  obtain ⟨hturned, -⟩ := horder _ hreverse p.session
  have hanswer : (p.availableLocales .collator).1 =
      [Demo.german, .unscripted "sr" "RS" "x"] := by decide
  have hthree : (p.registry .collator).1.roster.degradations () = 3 := by decide
  have hnew : (p.registry .collator).1.available.isSome = false := by decide
  have hzero : p.counters.degradedNormalizations = 0 := rfl
  rw [if_neg (by rw [hnew]; decide), hthree, hzero, Nat.zero_add] at hcount
  exact ⟨hp, hp', hsorted, hroot, hmem, hanswer, hreverse, hturned, hsecond, hthree, hcount⟩

end LocaleServices

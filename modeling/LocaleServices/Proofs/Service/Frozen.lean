import LocaleServices.Adapter.Scripted
import LocaleServices.Demo.Names
import LocaleServices.Proofs.Service.Calls
import LocaleServices.Proofs.Service.History

/-!
  Answers that were given once stay as they are.

  `Pool.Recalls` says that a pool remembers every answer of its history, that the available
  locales of all categories together are those of the single categories, and that the
  available locales of a category were found out at most once, with one listing for each
  registered adapter. Each step keeps it (`Recalls.step`), whatever adapters answer from
  call to call. Main statement: `answers_stay`.
-/

namespace LocaleServices

variable {σ δ : Type} {src : Source σ δ}

/-! ## Listings on behalf of available locales -/

/-- The kind of adapter that a call asks for its list, on behalf of the available locales of
    a category. -/
def Call.enumerated? (c : Category) : Call → Option Kind
  | .listing whom .availability => if whom.category = c then some whom.kind else none
  | _ => none

/-- The kinds of adapter that were asked for their lists, on behalf of the available locales
    of a category, in order. -/
def Session.enumerated (c : Category) (s : Session σ) : List Kind :=
  s.calls.filterMap (Call.enumerated? c)

theorem Call.enumerated?_of_isTest (c : Category) (call : Call) (h : call.isTest = true) :
    call.enumerated? c = none := by
  match call, h with
  | .support .., _ => rfl
  | .listing _ .support, _ => rfl

theorem Session.enumerated_after {c : Category} {call : Call} (h : call.enumerated? c = none)
    (w : σ) (s : Session σ) : (s.after call w).enumerated c = s.enumerated c := by
  simp [enumerated, after, h]

theorem Session.enumerated_get {α : Type} (s : Session σ) (c : Category) (getter : Getter σ δ α)
    (a : Adapter σ δ) (whom : Addressee) (l : Locale) (key : Option String)
    (expected : Expectation) :
    (s.get getter a whom l key expected).2.enumerated c = s.enumerated c :=
  enumerated_after rfl _ s

namespace Registry

/-- The kinds of adapter whose lists are in the remembered available locales. -/
def enumerated (r : Registry σ δ) : List Kind :=
  if r.available.isSome then r.adapters.keys else []

theorem IsNew.enumerated_eq {c : Category} {r : Registry σ δ} (h : r.IsNew src c) :
    r.enumerated = [] := by
  simp [enumerated, h.available]

theorem enumerated_collectKeys (c : Category) (r : Registry σ δ)
    (es : List (Kind × Adapter σ δ)) (s : Session σ) :
    (r.collectKeys es s).2.enumerated c =
      s.enumerated c ++ if r.category = c then es.map Prod.fst else [] := by
  rw [Session.enumerated, calls_collectKeys, List.filterMap_append, List.filterMap_map]
  refine congrArg (s.enumerated c ++ ·) ?_
  by_cases hc : r.category = c
  · have hf : Call.enumerated? c ∘ r.enumeration = some ∘ Prod.fst := funext fun e => if_pos hc
    rw [hf, List.filterMap_eq_map, if_pos hc]
  · have hf : Call.enumerated? c ∘ r.enumeration = fun _ => none := funext fun e => if_neg hc
    rw [hf, if_neg hc]
    exact List.filterMap_eq_nil_iff.mpr fun _ _ => rfl

theorem enumerated_reportMissing {α : Type} (c : Category) (q : Inquiry σ δ α) (k : Kind)
    (a : Adapter σ δ) (s : Session σ) : (reportMissing q k a s).enumerated c = s.enumerated c := by
  unfold reportMissing
  split <;> rfl

/-- Only finding out the available locales lists adapters on their behalf: the first time
    each adapter once, and never again. -/
theorem Step.computing {c : Category} {x y : Registry σ δ × Session σ} {log : List Event}
    (h : Step c x log y) :
    y.1.adapters = x.1.adapters ∧
      ((y.1.available = x.1.available ∧ (∀ c', log.count (.computed c') = 0) ∧
          ∀ c', y.2.enumerated c' = x.2.enumerated c') ∨
        (x.1.available = none ∧ y.1.available.isSome ∧
          (∀ c', log.count (.computed c') = if c = c' then 1 else 0) ∧
          ∀ c', y.2.enumerated c' =
            x.2.enumerated c' ++ if x.1.category = c' then x.1.adapters.keys else [])) := by
  cases h with
  | start | examine | report | fail => exact ⟨rfl, Or.inl ⟨rfl, fun _ => by simp, fun _ => rfl⟩⟩
  | available r s =>
    refine ⟨(r.availableLocales_same s).2.2, ?_⟩
    unfold availabilityJournal availableLocales
    cases ha : r.available with
    | some ls => exact Or.inl ⟨ha, fun _ => by simp, fun _ => rfl⟩
    | none =>
      refine Or.inr ⟨rfl, rfl, fun c' => ?_, fun c' => ?_⟩
      · simp [List.count_cons]
      · exact r.enumerated_collectKeys c' r.adapters.entries _
  | kinds l r s =>
    refine ⟨(r.kindsFor_same l s).2.2, Or.inl ⟨?_, fun _ => by simp, fun c' => ?_⟩⟩
    · unfold kindsFor
      split <;> rfl
    · unfold kindsFor
      split
      · rfl
      · exact (r.testing_serving l r.preference _).filterMap_calls (Call.enumerated?_of_isTest c')
  | test k a l r s =>
    exact ⟨rfl, Or.inl ⟨rfl, fun _ => rfl, fun c' =>
      (Session.testing_test a _ l s).filterMap_calls (Call.enumerated?_of_isTest c')⟩⟩
  | @answered _ q k a r s =>
    exact ⟨rfl, Or.inl ⟨rfl, fun _ => rfl, fun c' => s.enumerated_get c' ..⟩⟩
  | @passed _ q k a r s =>
    exact ⟨rfl, Or.inl ⟨rfl, fun _ => rfl, fun c' =>
      (enumerated_reportMissing c' q k a _).trans (s.enumerated_get c' ..)⟩⟩

end Registry

namespace Pool

/-! ## What pools keep -/

/-- Whether an answer is remembered. -/
def Remembers (p : Pool src) : Event → Prop
  | .kinds c l ks => p.kinds? c l = some ks
  | .available c ls => p.available? c = some ls
  | .allAvailable ls => p.allAvailable = some ls
  | .asked .. | .examined .. | .computed .. | .notFound .. => True

/-- The remembered available locales of all categories together are those that are remembered
    of the single categories. -/
def IsUnited (p : Pool src) : Prop :=
  ∀ ls, p.allAvailable = some ls → (∀ c, (p.available? c).isSome) ∧ ls = p.union

/-- Once all categories are known, their union stays. -/
theorem Keeps.union_eq {p p' : Pool src} (h : p.Keeps p')
    (hsome : ∀ c, (p.available? c).isSome) :
    (∀ c, (p'.available? c).isSome) ∧ p'.union = p.union := by
  have hsame : ∀ c, p'.available? c = p.available? c := fun c => by
    obtain ⟨ls, hls⟩ := Option.isSome_iff_exists.mp (hsome c)
    rw [hls, h.available hls]
  refine ⟨fun c => hsame c ▸ hsome c, ?_⟩
  simp only [union, hsame]

theorem BuildStep.allAvailable_eq {p p' : Pool src} (h : BuildStep p p') :
    p'.allAvailable = p.allAvailable := by
  cases h <;> rfl

/-- What is remembered of all categories together is given again or found out anew. -/
theorem Step.allAvailable_cases {p p' : Pool src} {log : List Event} (h : Step p log p') :
    p'.allAvailable = p.allAvailable ∨
      p'.allAvailable = some p.union ∧ p'.union = p.union ∧ ∀ c, (p.available? c).isSome := by
  cases h with
  | build h => exact Or.inl h.allAvailable_eq
  | work | known => exact Or.inl rfl
  | unite h => exact Or.inr ⟨rfl, rfl, h⟩

theorem IsUnited.step {p p' : Pool src} {log : List Event} (hp : p.IsUnited)
    (h : Step p log p') : p'.IsUnited := by
  intro ls hls
  rcases h.allAvailable_cases with he | ⟨he, hu, hsome⟩
  · obtain ⟨hsome, hunion⟩ := hp ls (he ▸ hls)
    obtain ⟨hsome', hunion'⟩ := h.retains.keeps.union_eq hsome
    exact ⟨hsome', hunion.trans hunion'.symm⟩
  · rw [he, Option.some.injEq] at hls
    exact ⟨(h.retains.keeps.union_eq hsome).1, hls.symm.trans hu.symm⟩

theorem Remembers.step {p p' : Pool src} {log : List Event} (hp : p.IsUnited)
    (h : Step p log p') {e : Event} (he : p.Remembers e) : p'.Remembers e := by
  cases e with
  | kinds c l ks => exact h.retains.keeps.kinds he
  | available c ls => exact h.retains.keeps.available he
  | allAvailable ls =>
    rcases h.allAvailable_cases with h' | ⟨h', -, -⟩
    · exact h'.trans he
    · exact h'.trans (congrArg some (hp ls he).2.symm)
  | asked | examined | computed | notFound => trivial

/-- Every answer is remembered at once. -/
theorem Step.remembers {p p' : Pool src} {log : List Event} (h : Step p log p') :
    ∀ e ∈ log, p'.Remembers e := by
  cases h with
  | build => simp
  | known h => simpa [Remembers] using h
  | unite => simp [Remembers, say]
  | @work c r log done hf h =>
    have hfind : (p.afterWork c done).registries.find? c = some done.1 :=
      (find?_afterWork p c c done).trans (if_pos rfl)
    cases h with
    | start | examine | fail => simp [Remembers]
    | test | answered | passed | report => simp
    | kinds l r s =>
      simp only [List.mem_singleton, forall_eq, Remembers, kinds?, hfind, Option.bind_some]
      exact r.find?_kindsFor l p.session
    | available r s =>
      intro e he
      rcases List.mem_append.mp he with he | he
      · by_cases ha : r.available.isSome
        · simp [ha] at he
        · simp only [ha, Bool.false_eq_true, if_false, List.mem_singleton] at he
          exact he ▸ trivial
      · rw [List.mem_singleton.mp he]
        simp only [Remembers, available?, hfind, Option.bind_some]
        exact r.available_availableLocales p.session

/-! ## Computations -/

/-- What the registry of a category shows; a substitute where there is none. -/
def read {β : Type} (f : Registry σ δ → β) (substitute : β) (c : Category) (p : Pool src) : β :=
  ((p.registries.find? c).map f).getD substitute

theorem BuildStep.read_eq {β : Type} {f : Registry σ δ → β} {substitute : β} {c : Category}
    (hf : ∀ r, r.IsNew src c → f r = substitute) {p p' : Pool src} (h : BuildStep p p') :
    p'.read f substitute c = p.read f substitute c := by
  cases h with
  | start | preference | request | callBack | answer | say => rfl
  | keep c' r p hr hp =>
    simp only [read, Table.find?_insert]
    split
    · rename_i hc
      subst hc
      rw [hp]
      exact hf r hr
    · rfl

theorem read_afterWork {β : Type} (f : Registry σ δ → β) (substitute : β) (p : Pool src)
    (c c' : Category) (done : Registry σ δ × Session σ) :
    (p.afterWork c done).read f substitute c' =
      if c = c' then f done.1 else p.read f substitute c' := by
  simp only [read, find?_afterWork]
  split <;> rfl

theorem read_of_find? {β : Type} (f : Registry σ δ → β) (substitute : β) {p : Pool src}
    {c : Category} {r : Registry σ δ} (h : p.registries.find? c = some r) :
    p.read f substitute c = f r := by
  rw [read, h]
  rfl

theorem BuildStep.enumerated_eq {p p' : Pool src} (h : BuildStep p p') (c : Category) :
    p'.session.enumerated c = p.session.enumerated c := by
  cases h with
  | start | callBack | answer | say | keep => rfl
  | preference p => exact Session.enumerated_after rfl _ p.session
  | request k c' p => exact Session.enumerated_after rfl _ p.session

/-! ## The invariant -/

/-- Every answer is remembered, and available locales were found out at most once. -/
structure Recalls (past : List Event) (p : Pool src) : Prop where
  madeFor : p.Holds fun c r => r.MadeFor src c
  isUnited : p.IsUnited
  remembers : ∀ e ∈ past, p.Remembers e
  computed : ∀ c, past.count (.computed c) = p.read Registry.computations 0 c
  enumerated : ∀ c, p.session.enumerated c = p.read Registry.enumerated [] c

variable {past log : List Event} {p p' : Pool src}

theorem recalls_fresh (src : Source σ δ) (w : σ) : Recalls [] (Pool.fresh src w) where
  madeFor := fun _ _ h => by cases h
  isUnited := fun _ h => by cases h
  remembers := fun _ h => by cases h
  computed := fun _ => rfl
  enumerated := fun _ => rfl

/-- One step of work counts as one computation exactly if it lists the adapters. -/
theorem Recalls.tallies (h : p.Recalls past) {c : Category} {r : Registry σ δ}
    {done : Registry σ δ × Session σ} (hf : p.registries.find? c = some r)
    (hw : Registry.Step c (r, p.session) log done) (c' : Category) :
    (past ++ log).count (.computed c') =
        (p.afterWork c done).read Registry.computations 0 c' ∧
      done.2.enumerated c' = (p.afterWork c done).read Registry.enumerated [] c' := by
  have hcategory : r.category = c := (h.madeFor c r hf).category
  obtain ⟨hadapters, ⟨havailable, hlog, henum⟩ | ⟨hnone, hsome, hlog, henum⟩⟩ := hw.computing
  · -- Nothing is found out.
    rw [List.count_append, hlog, henum, h.computed, h.enumerated, read_afterWork, read_afterWork]
    split
    · rename_i hc
      subst hc
      rw [read_of_find? _ _ hf, read_of_find? _ _ hf]
      simp [Registry.computations, Registry.enumerated, havailable, hadapters]
    · exact ⟨rfl, rfl⟩
  · -- The available locales of the category are found out.
    rw [List.count_append, hlog, henum, h.computed, h.enumerated, read_afterWork, read_afterWork,
      hcategory]
    split
    · rename_i hc
      subst hc
      rw [read_of_find? _ _ hf, read_of_find? _ _ hf]
      have hr : r.available = none := hnone
      simp [Registry.computations, Registry.enumerated, hr, hsome, hadapters]
    · exact ⟨rfl, List.append_nil _⟩

theorem Recalls.step (hs : Step p log p') (h : p.Recalls past) : p'.Recalls (past ++ log) := by
  have hremembers : ∀ e ∈ past ++ log, p'.Remembers e := by
    intro e he
    rcases List.mem_append.mp he with he | he
    · exact (h.remembers e he).step h.isUnited hs
    · exact hs.remembers e he
  have hunited : p'.IsUnited := h.isUnited.step hs
  cases hs with
  | build hb =>
    refine ⟨(Registry.kept_madeFor src).builds (.single hb) h.madeFor, hunited, hremembers,
      fun c => ?_, fun c => ?_⟩
    · rw [List.append_nil, h.computed, hb.read_eq fun _ hr => hr.computations_eq]
    · rw [hb.enumerated_eq, h.enumerated, hb.read_eq fun _ hr => hr.enumerated_eq]
  | @work c r log done hf hw =>
    refine ⟨fun c' r' hf' => ?_, hunited, hremembers, fun c' => (h.tallies hf hw c').1,
      fun c' => (h.tallies hf hw c').2⟩
    rw [find?_afterWork] at hf'
    split at hf'
    · rename_i hc
      cases hf'
      exact hc ▸ (Registry.kept_madeFor src).step hw (h.madeFor c r hf)
    · exact h.madeFor c' r' hf'
  | known | unite =>
    refine ⟨h.madeFor, hunited, hremembers, fun c => ?_, h.enumerated⟩
    rw [List.count_append, h.computed c]
    simp [read, say]

theorem History.recalls (h : p.History past) : p.Recalls past :=
  h.invariant (recalls_fresh src) Recalls.step

/-! ## What is answered -/

theorem kindsFor_of_kinds? {c : Category} {l : Locale} {ks : List Kind}
    (h : p.kinds? c l = some ks) : (p.kindsFor c l).1 = ks := by
  obtain ⟨r, hr, hks⟩ := Option.bind_eq_some_iff.mp h
  simp only [kindsFor, onRegistry, registry_of_find? hr]
  exact Registry.kindsFor_of_some hks p.session

theorem availableLocales_of_available? {c : Category} {ls : List Locale}
    (h : p.available? c = some ls) : (p.availableLocales c).1 = ls := by
  obtain ⟨r, hr, hls⟩ := Option.bind_eq_some_iff.mp h
  simp only [availableLocales, onRegistry, registry_of_find? hr]
  exact Registry.availableLocales_of_some hls p.session

theorem allAvailableLocales_of_some {ls : List Locale} (h : p.allAvailable = some ls) :
    p.allAvailableLocales.1 = ls := by
  simp only [allAvailableLocales, h]

/-- The locales of all categories together are those of the single categories. -/
theorem mem_union_iff (h : ∀ c, (p.available? c).isSome) {d : Locale} :
    d ∈ p.union ↔ ∃ c, d ∈ (p.availableLocales c).1 := by
  have hanswer : ∀ c, (p.available? c).getD [] = (p.availableLocales c).1 := fun c => by
    obtain ⟨ls, hls⟩ := Option.isSome_iff_exists.mp (h c)
    rw [availableLocales_of_available? hls, hls, Option.getD_some]
  simp only [union, Ascending.mem_ofList, List.mem_flatMap, Category.mem_all, true_and, hanswer]

/-- The adapters are listed once the available locales are found out. -/
theorem Recalls.enumerated_eq (h : p.Recalls past) (c : Category) :
    p.session.enumerated c =
      if .computed c ∈ past then (p.registry c).1.adapters.keys else [] := by
  have hcount := h.computed c
  rw [h.enumerated c]
  cases hr : p.registries.find? c with
  | none =>
    have hnot : .computed c ∉ past := List.count_eq_zero.mp (hcount.trans (by simp [read, hr]))
    rw [if_neg hnot, read, hr]
    rfl
  | some r =>
    rw [read_of_find? _ _ hr, registry_of_find? hr]
    rw [read_of_find? _ _ hr, Registry.computations] at hcount
    unfold Registry.enumerated
    by_cases ha : r.available.isSome
    · have hmem : .computed c ∈ past := List.count_pos_iff.mp (by simp [hcount, ha])
      rw [if_pos ha, if_pos hmem]
    · have hnot : .computed c ∉ past := List.count_eq_zero.mp (by simp [hcount, ha])
      rw [if_neg ha, if_neg hnot]

theorem Recalls.nodup_enumerated (h : p.Recalls past) (c : Category) :
    (p.session.enumerated c).Nodup := by
  rw [h.enumerated c]
  cases hr : p.registries.find? c with
  | none => simp [read, hr]
  | some r =>
    rw [read_of_find? _ _ hr, Registry.enumerated]
    split
    · exact (h.madeFor c r hr).distinct
    · exact List.nodup_nil

theorem Recalls.count_computed_le (h : p.Recalls past) (c : Category) :
    past.count (.computed c) ≤ 1 := by
  rw [h.computed c]
  cases hr : p.registries.find? c with
  | none => simp [read, hr]
  | some r =>
    rw [read_of_find? _ _ hr, Registry.computations]
    split <;> decide

/-- Whatever adapters answer from call to call: kinds that serve a locale, available locales
    of a category and of all categories together are answered as they were before. The last
    are always, in strictly ascending order, those of the single categories. The available
    locales of a category are found out at most once, by asking each registered adapter for
    its list once. -/
theorem answers_stay (h : p.History past) :
    let all := p.allAvailableLocales
    (∀ c l ks, .kinds c l ks ∈ past → (p.kindsFor c l).1 = ks) ∧
      (∀ c ls, .available c ls ∈ past → (p.availableLocales c).1 = ls) ∧
      (∀ ls, .allAvailable ls ∈ past → all.1 = ls) ∧
      all.1.Pairwise (compare · · = .lt) ∧
      (∀ d, d ∈ all.1 ↔ ∃ c, d ∈ (all.2.availableLocales c).1) ∧
      (∀ c ls, .available c ls ∈ past → (all.2.availableLocales c).1 = ls) ∧
      ∀ c, past.count (.computed c) ≤ 1 ∧ (p.session.enumerated c).Nodup ∧
        p.session.enumerated c =
          if .computed c ∈ past then (p.registry c).1.adapters.keys else [] := by
  intro all
  have hrecalls := h.recalls
  -- All categories are asked for; afterwards the answer and its parts are remembered.
  have hafter : all.2.Recalls (past ++ p.journal (.allAvailable : Request σ δ Unit)) :=
    (History.perform _ h).recalls
  have hall : all.2.allAvailable = some all.1 :=
    hafter.remembers (.allAvailable all.1) (by simp [journal, all])
  obtain ⟨hsome, hunion⟩ := hafter.isUnited _ hall
  refine ⟨fun c l ks he => kindsFor_of_kinds? (hrecalls.remembers _ he),
    fun c ls he => availableLocales_of_available? (hrecalls.remembers _ he),
    fun ls he => allAvailableLocales_of_some (hrecalls.remembers _ he),
    ?_, fun d => ?_, fun c ls he => ?_,
    fun c => ⟨hrecalls.count_computed_le c, hrecalls.nodup_enumerated c,
      hrecalls.enumerated_eq c⟩⟩
  · rw [hunion]
    exact Ascending.pairwise_ofList _
  · rw [hunion]
    exact mem_union_iff hsome
  · exact availableLocales_of_available?
      (hafter.remembers (.available c ls) (List.mem_append_left _ he))

end Pool

/-! ## An adapter that changes its list -/

/-- Lists German when it is first asked and French from then on. -/
def Demo.fickle : Role :=
  ⟨"fickle", NameTable.empty.declare german, none, .derived, some [french], 0, 0⟩

def Demo.fickleSource : Source (List Role) Nat :=
  ((Catalog.empty Kind.all).register .builtin .localeName (fickle.toAdapter 0)).toSource 0

/-- Who serves German, then the available locales, of one category and of all. -/
def Demo.fickleRequests : List (Request (List Role) Nat Unit) :=
  [.kinds .localeName german, .available .localeName, .allAvailable]

def Demo.ficklePool : Pool Demo.fickleSource :=
  ((Pool.fresh fickleSource [fickle]).run fickleRequests).2

def Demo.ficklePast : List Event :=
  (Pool.fresh fickleSource [fickle]).journals fickleRequests

theorem Demo.history_ficklePool : ficklePool.History ficklePast :=
  (Pool.History.fresh [fickle]).run fickleRequests

theorem Pool.answers_stay_fickle :
    let p := Demo.ficklePool
    let all := p.allAvailableLocales
    p.History Demo.ficklePast ∧
      -- By now the adapter would no longer serve German.
      (Demo.fickle.toAdapter 0).serves p.session.world Demo.german = false ∧
      .kinds .localeName Demo.german [.builtin] ∈ Demo.ficklePast ∧
      (p.kindsFor .localeName Demo.german).1 = [.builtin] ∧
      .available .localeName [Demo.french] ∈ Demo.ficklePast ∧
      (p.availableLocales .localeName).1 = [Demo.french] ∧
      .allAvailable [Demo.french] ∈ Demo.ficklePast ∧ all.1 = [Demo.french] ∧
      all.1.Pairwise (compare · · = .lt) ∧
      (∀ d, d ∈ all.1 ↔ ∃ c, d ∈ (all.2.availableLocales c).1) ∧
      (all.2.availableLocales .localeName).1 = [Demo.french] ∧
      ∀ c, Demo.ficklePast.count (.computed c) ≤ 1 ∧ (p.session.enumerated c).Nodup ∧
        p.session.enumerated c =
          if .computed c ∈ Demo.ficklePast then (p.registry c).1.adapters.keys else [] := by
  intro p all
  have hkinds : .kinds .localeName Demo.german [.builtin] ∈ Demo.ficklePast := by decide
  have havailable : .available .localeName [Demo.french] ∈ Demo.ficklePast := by decide
  have hall : .allAvailable [Demo.french] ∈ Demo.ficklePast := by decide
  obtain ⟨hk, ha, hu, hpairwise, hunion, hparts, honce⟩ :=
    Pool.answers_stay Demo.history_ficklePool
  exact ⟨Demo.history_ficklePool, by decide, hkinds, hk _ _ _ hkinds, havailable,
    ha _ _ havailable, hall, hu _ hall, hpairwise, hunion, hparts _ _ havailable, honce⟩

end LocaleServices

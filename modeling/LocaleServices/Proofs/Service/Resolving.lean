import LocaleServices.Demo.Names
import LocaleServices.Proofs.Service.Catalogs
import LocaleServices.Proofs.Service.Memory

/-!
  Who is asked for a datum.

  Resolving goes through candidates and kinds, keeps what it finds out about them, stops at
  the first answer, and takes a short way when the built-in adapter is alone. The effect is
  that of asking the eligible adapters of the roster in turn (`IsFaithful.resolve_leads`):
  one lemma for the kinds of a candidate (`consult_leads`), one for the candidates
  (`walk_leads`), and one for the short way (`resolveBuiltin_leads`). Main statement: so it
  is for every request to a pool, whatever the pool was used for before
  (`Pool.resolve_asks_eligible`).
-/

namespace LocaleServices.Registry

variable {σ δ α : Type} {src : Source σ δ} {c : Category} {r : Registry σ δ}
  {q : Inquiry σ δ α}

/-! ## The roster of a registry -/

@[simp] theorem roster_kindsFor (r : Registry σ δ) (l : Locale) (s : Session σ) :
    (r.kindsFor l s).2.1.roster = r.roster := by
  obtain ⟨_, hp, ha⟩ := r.kindsFor_same l s
  exact roster_congr hp ha

@[simp] theorem roster_availableLocales (r : Registry σ δ) (s : Session σ) :
    (r.availableLocales s).2.1.roster = r.roster := by
  obtain ⟨_, hp, ha⟩ := r.availableLocales_same s
  exact roster_congr hp ha

/-- The kinds with an adapter, in the order of the source and in that of the ranking. -/
theorem MadeFor.keys_perm (h : r.MadeFor src c) :
    r.adapters.keys.Perm (r.roster.entries.map Prod.fst) := by
  rw [List.perm_ext_iff_of_nodup h.distinct h.offers.nodup_kinds]
  intro k
  simp only [Table.keys, List.mem_map, h.mem_adapters_iff]

theorem MadeFor.hasExternal_eq (h : r.MadeFor src c) :
    r.hasExternal = !r.roster.isBuiltinAlone := by
  have halone : r.adapters.keys = [.builtin] ↔ r.roster.entries.map Prod.fst = [.builtin] := by
    constructor
    · intro he
      exact (h.keys_perm.symm.trans (he ▸ .refl _)).eq_singleton
    · intro he
      exact (h.keys_perm.trans (he ▸ .refl _)).eq_singleton
  simp [hasExternal, Roster.isBuiltinAlone, halone]

/-! ## The kinds of one candidate -/

theorem quiet_reportMissing (src : Source σ δ) (q : Inquiry σ δ α) (k : Kind)
    (a : Adapter σ δ) (s : Session σ) : s.Quiet src (reportMissing q k a s) := by
  unfold reportMissing
  split
  · exact (Session.quiet_count src s _).trans (Session.quiet_say src _ _)
  · exact .refl src s

theorem consult_cons {k : Kind} {a : Adapter σ δ} (h : r.adapter? k = some a) (ks : List Kind)
    (s : Session σ) :
    r.consult q (k :: ks) s =
      let answer := s.get q.getter a (r.addressee k a) q.locale q.key q.expected
      match answer.1 with
      | some value => (some value, answer.2)
      | none => r.consult q ks (reportMissing q k a answer.2) := by
  rw [consult]
  split
  · rename_i hn
    cases hn.symm.trans h
  · rename_i hb
    cases hb.symm.trans h
    rfl

/-- Consulting kinds asks their adapters in turn. -/
theorem consult_leads (src : Source σ δ) (q : Inquiry σ δ α) (hc : r.category = c)
    {es : List (Kind × Adapter σ δ)} (hes : ∀ e ∈ es, e ∈ r.roster.entries) (s : Session σ) :
    q.Leads src c es s (r.consult q (es.map Prod.fst) s).1
      (r.consult q (es.map Prod.fst) s).2 := by
  subst hc
  induction es generalizing s with
  | nil => exact Inquiry.leads_nil (.refl src s)
  | cons e es ih =>
    obtain ⟨k, a⟩ := e
    have ha : r.adapter? k = some a :=
      Roster.adapter?_of_mem_entries (hes (k, a) List.mem_cons_self)
    rw [List.map_cons, consult_cons ha]
    dsimp only
    cases hg : q.getter a q.locale q.key s.world with
    | mk answer w =>
      have hget : (s.get q.getter a (r.addressee k a) q.locale q.key q.expected).1 = answer :=
        congrArg Prod.fst hg
      rw [hget]
      cases answer with
      | some value => exact (Inquiry.leads_of_answered hg).append_right es
      | none =>
        have hrest := ih (fun e he => hes e (List.mem_cons_of_mem _ he))
          (reportMissing q k a
            (s.get q.getter a (r.addressee k a) q.locale q.key q.expected).2)
        exact (Inquiry.leads_of_passed hg).append
          (hrest.of_quiet (quiet_reportMissing src q k a _))

/-! ## The candidates -/

theorem walk_cons_of_admitted {available : List Locale} {d : Locale}
    (hd : d = .root ∨ d ∈ available) (ds : List Locale) (r : Registry σ δ) (s : Session σ) :
    walk q available (d :: ds) r s =
      let kinds := r.kindsFor d (s.count .candidateExamined)
      let answer := kinds.2.1.consult q kinds.1 kinds.2.2
      match answer.1 with
      | some value => (some value, kinds.2.1, answer.2)
      | none => walk q available ds kinds.2.1 answer.2 :=
  if_pos hd

theorem walk_cons_of_passed_over {available : List Locale} {d : Locale}
    (hd : ¬ (d = .root ∨ d ∈ available)) (ds : List Locale) (r : Registry σ δ)
    (s : Session σ) :
    walk q available (d :: ds) r s =
      walk q available ds r (s.count .candidateExamined) :=
  if_neg hd

/-- The gate lets those candidates pass that the roster admits. -/
theorem admits_iff {available : List Locale} {w : σ}
    (ha : ∀ d, d ∈ available ↔ d ≠ .root ∧ r.roster.lists w d = true) (d : Locale) :
    r.roster.admits w d = true ↔ d = .root ∨ d ∈ available := by
  rw [Roster.admits, Bool.or_eq_true, decide_eq_true_iff, ha]
  by_cases hd : d = .root <;> simp [hd]

/-- Walking over candidates asks, for each admitted one, the adapters that serve it. -/
theorem walk_leads (hs : src.IsSteady) (w : σ) {available : List Locale} (ds : List Locale)
    (h : r.IsFaithful src c)
    (ha : ∀ d, d ∈ available ↔ d ≠ .root ∧ r.roster.lists w d = true) (s : Session σ) :
    q.Leads src c ((ds.filter (r.roster.admits w)).flatMap (r.roster.serving w)) s
      (walk q available ds r s).1 (walk q available ds r s).2.2 := by
  -- The registry changes from candidate to candidate; it stays faithful and keeps its roster.
  induction ds generalizing r s with
  | nil => exact Inquiry.leads_nil (.refl src s)
  | cons d ds ih =>
    have hcount := Session.quiet_count src s .candidateExamined
    by_cases hd : d = .root ∨ d ∈ available
    · rw [walk_cons_of_admitted hd, List.filter_cons_of_pos ((admits_iff ha d).mpr hd),
        List.flatMap_cons]
      have hkinds := h.kindsFor_eq hs w d (s.count .candidateExamined)
      have hasked := hcount.trans (h.kindsFor_quiet d (s.count .candidateExamined))
      have hr' := (kept_isFaithful hs).kindsFor d (s.count .candidateExamined) h
      have hroster := r.roster_kindsFor d (s.count .candidateExamined)
      generalize r.kindsFor d (s.count .candidateExamined) = kinds at *
      obtain ⟨ks, r', s'⟩ := kinds
      dsimp only at hkinds hasked hr' hroster ⊢
      subst hkinds
      rw [← hroster] at ha ⊢
      have hfirst := (consult_leads src q hr'.category
        (fun e he => Roster.mem_entries_of_mem_serving (w := w) (l := d) he) s').of_quiet hasked
      generalize r'.consult q ((r'.roster.serving w d).map Prod.fst) s' = answer at *
      obtain ⟨found, s''⟩ := answer
      cases found with
      | some value => exact hfirst.append_right _
      | none => exact hfirst.append (ih hr' ha s'')
    · rw [walk_cons_of_passed_over hd,
        List.filter_cons_of_neg fun hp => hd ((admits_iff ha d).mp hp)]
      exact (ih h ha _).of_quiet hcount

/-! ## The two ways -/

theorem resolveBuiltin_leads (h : r.MadeFor src c) (hb : r.roster.isBuiltinAlone = true)
    (s : Session σ) :
    ∃ answer, (r.resolveBuiltin q s).1 = .ofOption answer ∧
      q.Leads src c r.roster.entries s answer (r.resolveBuiltin q s).2.2 := by
  have hkinds : r.roster.entries.map Prod.fst = [.builtin] := of_decide_eq_true hb
  have hasked := (consult_leads src q h.category (fun _ he => he)
    (s.count .fastPath)).of_quiet (Session.quiet_count src s .fastPath)
  rw [hkinds] at hasked
  unfold resolveBuiltin
  dsimp only
  generalize r.consult q [.builtin] (s.count .fastPath) = answer at hasked ⊢
  obtain ⟨found, s'⟩ := answer
  cases found with
  | some value => exact ⟨some value, rfl, hasked⟩
  | none => exact ⟨none, rfl, hasked.quiet (Session.quiet_count src s' .notFound)⟩

theorem resolveCandidates_leads (h : r.IsFaithful src c) (hs : src.IsSteady) (w : σ)
    (s : Session σ) :
    ∃ answer, (r.resolveCandidates q s).1 = .ofOption answer ∧
      q.Leads src c ((q.locale.candidates.filter (r.roster.admits w)).flatMap
        (r.roster.serving w)) s answer (r.resolveCandidates q s).2.2 := by
  have hcount := Session.quiet_count src s .fallbackChain
  have hlocales := h.mem_availableLocales hs w (s.count .fallbackChain)
  have hlisted := hcount.trans (h.availableLocales_quiet (s.count .fallbackChain))
  have hr' := (kept_isFaithful hs).availableLocales (s.count .fallbackChain) h
  have hroster := r.roster_availableLocales (s.count .fallbackChain)
  unfold resolveCandidates
  dsimp only
  generalize r.availableLocales (s.count .fallbackChain) = available at *
  obtain ⟨locales, r', s'⟩ := available
  dsimp only at hlocales hlisted hr' hroster ⊢
  rw [← hroster] at hlocales ⊢
  have hasked := (walk_leads (q := q) hs w q.locale.candidates hr' hlocales s').of_quiet hlisted
  generalize walk q locales q.locale.candidates r' s' = answer at hasked ⊢
  obtain ⟨found, r'', s''⟩ := answer
  cases found with
  | some value => exact ⟨some value, rfl, hasked⟩
  | none =>
    exact ⟨none, rfl, hasked.quiet
      ((Session.quiet_say src s'' _).trans (Session.quiet_count src _ .notFound))⟩

/-- Resolving asks the eligible adapters in turn and gives the first answer. -/
theorem IsFaithful.resolve_leads (h : r.IsFaithful src c) (hs : src.IsSteady) (w : σ)
    (q : Inquiry σ δ α) (s : Session σ) :
    ∃ answer, (r.resolve q s).1 = .ofOption answer ∧
      q.Leads src c (r.roster.eligible w q.locale) s answer (r.resolve q s).2.2 := by
  unfold resolve Roster.eligible
  rw [h.hasExternal_eq]
  cases hb : r.roster.isBuiltinAlone with
  | true => exact resolveBuiltin_leads h.toMadeFor hb s
  | false => exact resolveCandidates_leads h hs w s

end LocaleServices.Registry

namespace LocaleServices

variable {σ δ β : Type} {src : Source σ δ}

/-! ## Pools -/

/-- A request to a pool asks the eligible adapters of the category's roster. -/
theorem Pool.Reachable.resolve_leads {p : Pool src} (hp : p.Reachable) (hs : src.IsSteady)
    (w : σ) (c : Category) (l : Locale) (key : Option String) (expected : Expectation)
    (getter : Getter σ δ β) :
    ∃ answer, (p.resolve c (some l) key expected getter).1 = .ok (.ofOption answer) ∧
      Inquiry.Leads ⟨l, key, expected, getter⟩ src c ((p.registry c).1.roster.eligible w l)
        p.session answer (p.resolve c (some l) key expected getter).2.session := by
  have hr := (Registry.kept_isFaithful hs).registry hp c
  obtain ⟨answer, hanswer, hasked⟩ :=
    hr.resolve_leads hs w ⟨l, key, expected, getter⟩ (p.registry c).2.session
  refine ⟨answer, congrArg Except.ok hanswer, ?_⟩
  exact hasked.of_quiet (Pool.builds_registry c p).quiet

/-- After any use of a pool over a steady source, a request for a datum asks exactly the
    eligible adapters of its category in turn, up to the first answer, each for the requested
    locale and key, and has that answer as its outcome. The roster is made of answers of the
    source; there is one if the source is fixed. -/
theorem Pool.resolve_asks_eligible {p : Pool src} (hp : p.Reachable) (hs : src.IsSteady)
    (w : σ) (c : Category) (l : Locale) (key : Option String) (expected : Expectation)
    (getter : Getter σ δ β) :
    let roster := (p.registry c).1.roster
    let done := p.resolve c (some l) key expected getter
    src.Offers c roster ∧ (src.IsFixed → roster = src.rosterIn w c) ∧
      ∃ log answer,
        Inquiry.Asks src c ⟨l, key, expected, getter⟩ (roster.eligible w l) p.session.world log
          answer done.2.session.world ∧
        done.2.session.getterCalls = p.session.getterCalls ++ log ∧
        done.1 = .ok (.ofOption answer) := by
  intro roster done
  have hoffers : src.Offers c roster := hp.offers c
  obtain ⟨answer, hanswer, log, hasks, hlog⟩ := hp.resolve_leads hs w c l key expected getter
  exact ⟨hoffers, fun hf => hoffers.eq_rosterIn hf w, log, answer, hasks, hlog, hanswer⟩

theorem Demo.isSteady_catalog (preference : List Kind) :
    (Demo.catalog preference).All Adapter.IsSteady :=
  ((Catalog.all_empty preference).registerAll (builtinNames.isSteady_toAdapter _) _).register
    (pluginNames.isSteady_toAdapter _) _ _

/-- A pool over the demonstration catalog, after some use. -/
def Demo.usedPool : Pool ((Demo.catalog Kind.all).toSource 1) :=
  ((Pool.fresh _ ()).run
    [.available .localeName, .localizedName .localeName german "en" NameTable.getter]).2

theorem Demo.reachable_usedPool : Demo.usedPool.Reachable := (Pool.Reachable.fresh ()).run _

theorem Demo.isSteady_source : ((Demo.catalog Kind.all).toSource 1).IsSteady :=
  Catalog.isSteady_toSource (isSteady_catalog Kind.all) 1

theorem Pool.resolve_asks_eligible_demo :
    let src := (Demo.catalog Kind.all).toSource 1
    let roster := (Demo.usedPool.registry .localeName).1.roster
    let done := Demo.usedPool.resolve .localeName (some Demo.canadianFrench) (some "de") .name
      NameTable.getter
    Demo.usedPool.Reachable ∧ src.IsSteady ∧ src.Offers .localeName roster ∧
      roster = src.rosterIn () .localeName ∧
      ∃ log answer,
        Inquiry.Asks src .localeName ⟨Demo.canadianFrench, some "de", .name, NameTable.getter⟩
          (roster.eligible () Demo.canadianFrench) Demo.usedPool.session.world log answer
          done.2.session.world ∧
        done.2.session.getterCalls = Demo.usedPool.session.getterCalls ++ log ∧
        done.1 = .ok (.ofOption answer) := by
  intro src roster done
  obtain ⟨hoffers, hroster, hasked⟩ := Pool.resolve_asks_eligible Demo.reachable_usedPool
    Demo.isSteady_source () .localeName Demo.canadianFrench (some "de") .name NameTable.getter
  exact ⟨Demo.reachable_usedPool, Demo.isSteady_source, hoffers,
    hroster (Catalog.isFixed_toSource _ 1), hasked⟩

/-- The plugin serves the request itself, the built-in adapter its language, both the root. -/
example :
    ((Demo.usedPool.registry .localeName).1.roster.eligible () Demo.canadianFrench).map
      Prod.fst = [.plugin, .builtin, .builtin, .plugin] := by decide

end LocaleServices

import LocaleServices.Demo.Names
import LocaleServices.Proofs.Locale.Members
import LocaleServices.Proofs.Service.Calls
import LocaleServices.Proofs.Service.History

/-!
  The counters say what happened.

  An `Account` is a sum of counters together with what it should come to: a number of events
  of the history, of recorded calls, or of things that the registries remember.
  `Registry.Booked` says that a stretch of work raised each account by as much as these grew;
  every step of work on a registry does (`Step.booked`), so the accounts of a pool are right
  after any requests (`Pool.History.accounts`). How many candidates a request examines is read
  off its journal (`countP_walkJournal_le`, `countP_walkJournal_of_none`). Main statement:
  `counters_account`.
-/

namespace LocaleServices

variable {σ δ α : Type} {src : Source σ δ}

/-! ## What is counted -/

namespace Event

def isAsked : Event → Bool
  | .asked .. => true
  | _ => false

def isExamined : Event → Bool
  | .examined .. => true
  | _ => false

def isKinds : Event → Bool
  | .kinds .. => true
  | _ => false

def isNotFound : Event → Bool
  | .notFound .. => true
  | _ => false

/-- Whether an event only happens on the way to an answer, or answers for locales or kinds. -/
def isInner : Event → Bool
  | .examined .. | .kinds .. | .computed _ | .available .. => true
  | _ => false

theorem countP_of_inner {log : List Event} (h : ∀ e ∈ log, e.isInner = true) {f : Event → Bool}
    (hf : ∀ e, e.isInner = true → f e = false) : log.countP f = 0 :=
  List.countP_eq_zero.mpr fun e he => by simp [hf e (h e he)]

theorem isAsked_of_isInner (e : Event) (h : e.isInner = true) : e.isAsked = false := by
  cases e with
  | asked => cases h
  | examined | kinds | computed | available | notFound | allAvailable => rfl

theorem isNotFound_of_isInner (e : Event) (h : e.isInner = true) : e.isNotFound = false := by
  cases e with
  | notFound => cases h
  | asked | examined | kinds | computed | available | allAvailable => rfl

end Event

/-- Whether a datum is asked for, with a locale. -/
def Request.asks : Request σ δ α → Bool
  | .resolve _ l _ _ _ => l.isSome
  | .localizedObject .. | .localizedName .. => true
  | _ => false

/-- Whether nobody had the datum that was asked for. -/
def Reply.isNotFound : Reply σ δ α → Bool
  | .resolution (.ok .notFound) => true
  | _ => false

/-- Whether an adapter that owed an object was asked for it and had none. -/
def Call.isUnanswered : Call → Bool
  | .getter _ _ _ .object false => true
  | _ => false

theorem Call.isUnanswered_of_isTest (call : Call) (h : call.isTest = true) :
    call.isUnanswered = false := by
  match call, h with
  | .support .., _ => rfl
  | .listing _ .support, _ => rfl

/-! ## Accounts -/

inductive Account
  | resolutions
  | examined
  | notFound
  | violations
  | kinds
  | misses
  | computations

namespace Account

/-- What the counters say. -/
def counted : Account → Counters → Nat
  | resolutions, m => m.fastPaths + m.fallbackChains
  | examined, m => m.candidatesExamined
  | notFound, m => m.notFound
  | violations, m => m.contractViolations
  | kinds, m => m.kindsHits + m.kindsMisses
  | misses, m => m.kindsMisses
  | computations, m => m.availabilityComputations

/-- How many of some events belong to an account. -/
def events : Account → List Event → Nat
  | resolutions, log => log.countP Event.isAsked
  | examined, log => log.countP Event.isExamined
  | notFound, log => log.countP Event.isNotFound
  | kinds, log => log.countP Event.isKinds
  | violations, _ | misses, _ | computations, _ => 0

/-- How many of some calls belong to an account. -/
def calls : Account → List Call → Nat
  | violations, log => log.countP Call.isUnanswered
  | resolutions, _ | examined, _ | notFound, _ | kinds, _ | misses, _ | computations, _ => 0

/-- How much of what a registry remembers belongs to an account. -/
def memory : Account → Registry σ δ → Nat
  | misses, r => r.kindsByLocale.size
  | computations, r => r.computations
  | resolutions, _ | examined, _ | notFound, _ | violations, _ | kinds, _ => 0

theorem events_nil (a : Account) : a.events [] = 0 := by
  cases a <;> rfl

theorem events_append (a : Account) (log log' : List Event) :
    a.events (log ++ log') = a.events log + a.events log' := by
  cases a with
  | resolutions | examined | notFound | kinds => exact List.countP_append
  | violations | misses | computations => rfl

/-- Asking for the locales of all categories together is not counted. -/
theorem events_allAvailable (a : Account) (ls : List Locale) :
    a.events [.allAvailable ls] = 0 := by
  cases a <;> rfl

theorem calls_congr {log log' : List Call}
    (h : log'.countP Call.isUnanswered = log.countP Call.isUnanswered) (a : Account) :
    a.calls log' = a.calls log := by
  cases a with
  | violations => exact h
  | resolutions | examined | notFound | kinds | misses | computations => rfl

theorem memory_of_isNew {c : Category} {r : Registry σ δ} (h : r.IsNew src c) (a : Account) :
    a.memory r = 0 := by
  cases a with
  | misses => exact congrArg Table.size h.kindsByLocale
  | computations => exact h.computations_eq
  | resolutions | examined | notFound | violations | kinds => rfl

end Account

/-- Work that no account takes note of. -/
structure Session.Unbooked (s s' : Session σ) : Prop where
  counters : ∃ n, s'.counters = { s.counters with degradedNormalizations := n }
  unanswered : s'.calls.countP Call.isUnanswered = s.calls.countP Call.isUnanswered

theorem Session.Unbooked.counted_eq {s s' : Session σ} (h : s.Unbooked s') (a : Account) :
    a.counted s'.counters = a.counted s.counters := by
  obtain ⟨n, hn⟩ := h.counters
  rw [hn]
  cases a <;> rfl

theorem Session.Testing.unbooked {s s' : Session σ} (h : s.Testing s') : s.Unbooked s' :=
  ⟨⟨_, h.counters⟩, h.countP_calls Call.isUnanswered_of_isTest⟩

/-- Any one call but that of a getter that owed an object. -/
theorem Session.unbooked_after {call : Call} (h : call.isUnanswered = false) (w : σ)
    (s : Session σ) : s.Unbooked (s.after call w) := by
  refine ⟨⟨_, rfl⟩, ?_⟩
  simp [after, h]

namespace Registry

theorem unbooked_collectKeys (r : Registry σ δ) (es : List (Kind × Adapter σ δ))
    (s : Session σ) : s.Unbooked (r.collectKeys es s).2 := by
  refine ⟨r.counters_collectKeys es s, ?_⟩
  have hnone : (es.map r.enumeration).countP Call.isUnanswered = 0 := by
    rw [List.countP_eq_zero]
    intro call hc
    obtain ⟨e, -, rfl⟩ := List.mem_map.mp hc
    exact Bool.false_ne_true
  rw [calls_collectKeys, List.countP_append, hnone, Nat.add_zero]

/-! ## Work on a registry -/

/-- Each account was raised by as much as happened. -/
def Booked (x : Registry σ δ × Session σ) (log : List Event) (y : Registry σ δ × Session σ) :
    Prop :=
  ∀ a : Account, a.counted y.2.counters + a.calls x.2.calls + a.memory x.1 =
    a.counted x.2.counters + a.events log + a.calls y.2.calls + a.memory y.1

theorem booked_refl (x : Registry σ δ × Session σ) : Booked x [] x := fun a => by
  rw [Account.events_nil, Nat.add_zero]

/-- Work of which no account takes note may follow. -/
theorem Booked.unbooked {x : Registry σ δ × Session σ} {log : List Event}
    {r : Registry σ δ} {s s' : Session σ} (h : Booked x log (r, s)) (h' : s.Unbooked s') :
    Booked x log (r, s') := by
  intro a
  rw [h'.counted_eq a, a.calls_congr h'.unanswered]
  exact h a

theorem booked_start {way : Counter} (h : way = .fastPath ∨ way = .fallbackChain) (c : Category)
    (l : Locale) (r : Registry σ δ) (s : Session σ) :
    Booked (r, s) [.asked c l] (r, s.count way) := by
  intro a
  cases a with
  | resolutions =>
    rcases h with rfl | rfl
    · exact Nat.add_right_comm s.counters.fastPaths 1 s.counters.fallbackChains
    · rfl
  | examined | notFound | violations | kinds | misses | computations =>
    rcases h with rfl | rfl <;> rfl

theorem booked_examine (c : Category) (d : Locale) (r : Registry σ δ) (s : Session σ) :
    Booked (r, s) [.examined c d] (r, s.count .candidateExamined) := by
  intro a
  cases a <;> rfl

theorem booked_fail (c : Category) (l : Locale) (r : Registry σ δ) (s : Session σ) :
    Booked (r, s) [.notFound c l] (r, s.count .notFound) := by
  intro a
  cases a <;> rfl

theorem booked_answered (r : Registry σ δ) (q : Inquiry σ δ α) (k : Kind) (a : Adapter σ δ)
    {s : Session σ} {value : α} (h : (q.getter a q.locale q.key s.world).1 = some value) :
    Booked (r, s) [] (r, (s.get q.getter a (r.addressee k a) q.locale q.key q.expected).2) := by
  have hcall : (Call.getter (r.addressee k a) q.locale q.key q.expected
      (q.getter a q.locale q.key s.world).1.isSome).isUnanswered = false := by
    rw [h]
    cases q.expected <;> rfl
  exact (booked_refl (r, s)).unbooked (Session.unbooked_after hcall _ s)

/-- An object that is owed counts as a violation; a name does not. -/
theorem booked_passed (r : Registry σ δ) (q : Inquiry σ δ α) (k : Kind) (a : Adapter σ δ)
    {s : Session σ} (h : (q.getter a q.locale q.key s.world).1 = none) :
    Booked (r, s) [] (r, reportMissing q k a
      (s.get q.getter a (r.addressee k a) q.locale q.key q.expected).2) := by
  unfold reportMissing
  cases q.expected with
  | object =>
    intro b
    cases b with
    | violations =>
      simp only [Account.counted, Account.calls, Account.events, Account.memory, Session.get,
        Session.after, Session.count, Session.say, Counters.add, h, Option.isSome_none,
        List.countP_append, List.countP_singleton, Call.isUnanswered, if_true]
      omega
    | resolutions | examined | notFound | kinds | misses | computations => rfl
  | name => exact (booked_refl (r, s)).unbooked (Session.unbooked_after rfl _ s)

theorem booked_kindsFor (c : Category) (r : Registry σ δ) (l : Locale) (s : Session σ) :
    Booked (r, s) [.kinds c l (r.kindsFor l s).1] (r.kindsFor l s).2 := by
  unfold kindsFor
  cases hf : r.kindsByLocale.find? l with
  | some ks =>
    intro a
    cases a with
    | kinds => exact Nat.add_right_comm s.counters.kindsHits 1 s.counters.kindsMisses
    | resolutions | examined | notFound | violations | misses | computations => rfl
  | none =>
    have hmiss : ∀ ks, Booked (r, s) [.kinds c l ks]
        ({ r with kindsByLocale := r.kindsByLocale.insert l ks }, s.count .kindsMiss) := by
      intro ks a
      cases a with
      | misses =>
        simp only [Account.counted, Account.calls, Account.events, Account.memory,
          Session.count, Counters.add, Table.size_insert_of_find?_eq_none hf]
        omega
      | resolutions | examined | notFound | violations | kinds | computations => rfl
    exact (hmiss _).unbooked (r.testing_serving l r.preference _).unbooked

theorem booked_availableLocales (c : Category) (r : Registry σ δ) (s : Session σ) :
    Booked (r, s) (r.availabilityJournal c s) (r.availableLocales s).2 := by
  unfold availabilityJournal availableLocales
  cases ha : r.available with
  | some ls =>
    intro a
    cases a <;> rfl
  | none =>
    have hfill : ∀ ls, Booked (r, s) [.computed c, .available c ls]
        ({ r with available := some ls }, s.count .availabilityComputation) := by
      intro ls a
      cases a with
      | computations =>
        simp [Account.counted, Account.calls, Account.events, Account.memory, Session.count,
          Counters.add, computations, ha]
      | resolutions | examined | notFound | violations | kinds | misses => rfl
    have hkeys := r.unbooked_collectKeys r.adapters.entries (s.count .availabilityComputation)
    exact (hfill _).unbooked ⟨hkeys.counters, hkeys.unanswered⟩

/-- Every step of work on a registry is booked. -/
theorem Step.booked {c : Category} {x y : Registry σ δ × Session σ} {log : List Event}
    (h : Step c x log y) : Booked x log y := by
  cases h with
  | start hway l r s => exact booked_start hway c l r s
  | examine d r s => exact booked_examine c d r s
  | fail l r s => exact booked_fail c l r s
  | report m r s => exact booked_refl (r, s)
  | test k a l r s =>
    exact (booked_refl (r, s)).unbooked (Session.testing_test a _ l s).unbooked
  | answered hg => exact booked_answered _ _ _ _ hg
  | passed hg => exact booked_passed _ _ _ _ hg
  | kinds l r s => exact booked_kindsFor c r l s
  | available r s => exact booked_availableLocales c r s

/-! ## The journal of one request -/

variable (c : Category) (q : Inquiry σ δ α)

theorem isInner_of_mem_availabilityJournal (r : Registry σ δ) (s : Session σ) :
    ∀ e ∈ r.availabilityJournal c s, e.isInner = true := by
  unfold availabilityJournal
  split <;> simp [Event.isInner]

theorem isInner_of_mem_walkJournal (available ds : List Locale) (r : Registry σ δ)
    (s : Session σ) : ∀ e ∈ walkJournal c q available ds r s, e.isInner = true := by
  induction ds generalizing r s with
  | nil => exact fun _ he => by cases he
  | cons d ds ih =>
    unfold walkJournal
    dsimp only
    refine List.forall_mem_cons.mpr ⟨rfl, ?_⟩
    split
    · refine List.forall_mem_cons.mpr ⟨rfl, ?_⟩
      split
      · exact fun _ he => by cases he
      · exact ih _ _
    · exact ih _ _

/-- A journal says once that something was asked for, and once that nobody had it if it was
    so. -/
theorem countP_resolveJournal (r : Registry σ δ) (s : Session σ) :
    (r.resolveJournal c q s).countP Event.isAsked = 1 ∧
      (r.resolveJournal c q s).countP Event.isNotFound =
        (outcomeJournal c q.locale (r.resolve q s).1).countP Event.isNotFound := by
  unfold resolveJournal
  dsimp only
  generalize hinner : (if r.hasExternal = true then _ else _ : List Event) = inner
  have h : ∀ e ∈ inner, e.isInner = true := by
    intro e he
    rw [← hinner] at he
    split at he
    · rcases List.mem_append.mp he with he | he
      · exact r.isInner_of_mem_availabilityJournal c _ e he
      · exact isInner_of_mem_walkJournal c q _ _ _ _ e he
    · cases he
  have houtcome : (outcomeJournal c q.locale (r.resolve q s).1).countP Event.isAsked = 0 := by
    cases (r.resolve q s).1 <;> rfl
  rw [List.countP_cons_of_pos rfl, List.countP_cons_of_neg Bool.false_ne_true,
    List.countP_append, List.countP_append, Event.countP_of_inner h Event.isAsked_of_isInner,
    Event.countP_of_inner h Event.isNotFound_of_isInner, houtcome]
  exact ⟨rfl, Nat.zero_add _⟩

theorem countP_walkJournal_le (available ds : List Locale) (r : Registry σ δ) (s : Session σ) :
    (walkJournal c q available ds r s).countP Event.isExamined ≤ ds.length := by
  induction ds generalizing r s with
  | nil => exact Nat.le_refl 0
  | cons d ds ih =>
    unfold walkJournal
    dsimp only
    rw [List.countP_cons_of_pos rfl, List.length_cons]
    refine Nat.succ_le_succ ?_
    split
    · rw [List.countP_cons_of_neg Bool.false_ne_true]
      split
      · exact Nat.zero_le _
      · exact ih _ _
    · exact ih _ _

theorem one_le_countP_walkJournal (available : List Locale) {ds : List Locale} (hds : ds ≠ [])
    (r : Registry σ δ) (s : Session σ) :
    1 ≤ (walkJournal c q available ds r s).countP Event.isExamined := by
  cases ds with
  | nil => exact absurd rfl hds
  | cons d ds =>
    rw [walkJournal, List.countP_cons_of_pos rfl]
    exact Nat.succ_le_succ (Nat.zero_le _)

/-- Without an answer every candidate was examined. -/
theorem countP_walkJournal_of_none (available : List Locale) {ds : List Locale}
    {r : Registry σ δ} {s : Session σ} (h : (walk q available ds r s).1 = none) :
    (walkJournal c q available ds r s).countP Event.isExamined = ds.length := by
  induction ds generalizing r s with
  | nil => rfl
  | cons d ds ih =>
    by_cases hd : d = .root ∨ d ∈ available
    · simp only [walk, walkJournal, if_pos hd] at h ⊢
      rw [List.countP_cons_of_pos rfl, List.countP_cons_of_neg Bool.false_ne_true,
        List.length_cons]
      refine congrArg (· + 1) ?_
      generalize r.kindsFor d (s.count .candidateExamined) = kinds at h ⊢
      generalize kinds.2.1.consult q kinds.1 kinds.2.2 = answer at h ⊢
      obtain ⟨found, s'⟩ := answer
      cases found with
      | some value => cases h
      | none => exact ih h
    · simp only [walk, walkJournal, if_neg hd] at h ⊢
      rw [List.countP_cons_of_pos rfl, List.length_cons, ih h]

theorem countP_availabilityJournal (r : Registry σ δ) (s : Session σ) :
    (r.availabilityJournal c s).countP Event.isExamined = 0 := by
  unfold availabilityJournal
  split <;> rfl

/-- On the long way the candidates of the locale are examined, from the first on, all of them
    if nobody has the datum. -/
theorem countP_examined_resolveJournal {r : Registry σ δ} (hr : r.hasExternal = true)
    (s : Session σ) :
    let n := (r.resolveJournal c q s).countP Event.isExamined
    1 ≤ n ∧ n ≤ q.locale.candidates.length ∧
      ((r.resolve q s).1 = .notFound → n = q.locale.candidates.length) := by
  intro n
  have hne : q.locale.candidates ≠ [] := List.ne_nil_of_mem q.locale.root_mem_candidates
  have hn : n = (walkJournal c q (r.availableLocales (s.count .fallbackChain)).1
      q.locale.candidates (r.availableLocales (s.count .fallbackChain)).2.1
      (r.availableLocales (s.count .fallbackChain)).2.2).countP Event.isExamined := by
    have hlast : (outcomeJournal c q.locale (r.resolve q s).1).countP Event.isExamined = 0 := by
      cases (r.resolve q s).1 <;> rfl
    simp only [n, resolveJournal, if_pos hr]
    rw [List.countP_cons_of_neg Bool.false_ne_true, List.countP_append, List.countP_append,
      countP_availabilityJournal, hlast, Nat.zero_add, Nat.add_zero]
  rw [hn]
  refine ⟨one_le_countP_walkJournal c q _ hne _ _, countP_walkJournal_le c q _ _ _ _,
    fun h => countP_walkJournal_of_none c q _ ?_⟩
  unfold resolve resolveCandidates at h
  rw [if_pos hr] at h
  dsimp only at h
  split at h
  · cases h
  · assumption

end Registry

namespace Pool

variable {past log : List Event} {p p' : Pool src}

/-! ## Pools -/

/-- Each account of a pool is what the history, the calls and the registries come to. -/
def Accounts (past : List Event) (p : Pool src) : Prop :=
  ∀ a : Account, a.counted p.session.counters =
    a.events past + a.calls p.session.calls + p.registries.total a.memory

theorem accounts_fresh (src : Source σ δ) (w : σ) : Accounts [] (Pool.fresh src w) := by
  intro a
  cases a <;> rfl

/-- Making registries adds nothing to any account. -/
theorem BuildStep.unbooked (h : BuildStep p p') : p.session.Unbooked p'.session := by
  cases h with
  | start | callBack | answer | say | keep => exact ⟨⟨_, rfl⟩, rfl⟩
  | preference p => exact Session.unbooked_after rfl _ p.session
  | request k c p => exact Session.unbooked_after rfl _ p.session

theorem Accounts.build (h : p.Accounts past) (hb : BuildStep p p') : p'.Accounts past := by
  intro a
  rw [hb.unbooked.counted_eq, a.calls_congr hb.unbooked.unanswered,
    hb.total_eq a.memory_of_isNew]
  exact h a

/-- Booked work on one registry keeps the books of the pool. -/
theorem Accounts.work (h : p.Accounts past) {c : Category} {r : Registry σ δ}
    (hf : p.registries.find? c = some r) {done : Registry σ δ × Session σ}
    (hb : Registry.Booked (r, p.session) log done) :
    (p.afterWork c done).Accounts (past ++ log) := by
  intro a
  have hpool := h a
  have hwork : a.counted done.2.counters + a.calls p.session.calls + a.memory r =
      a.counted p.session.counters + a.events log + a.calls done.2.calls + a.memory done.1 := hb a
  -- In the total the registry gives way to what it has become.
  have htotal : (p.registries.insert c done.1).total a.memory + a.memory r =
      p.registries.total a.memory + a.memory done.1 := by
    have hinsert := Table.total_insert a.memory p.registries c done.1
    rwa [hf] at hinsert
  simp only [afterWork, Account.events_append]
  omega

theorem Accounts.step (hs : Step p log p') (h : p.Accounts past) :
    p'.Accounts (past ++ log) := by
  cases hs with
  | build hb => exact (List.append_nil past).symm ▸ h.build hb
  | work hf hw => exact h.work hf hw.booked
  | known | unite =>
    intro a
    rw [Account.events_append, Account.events_allAvailable]
    exact h a

theorem History.accounts (h : p.History past) : p.Accounts past :=
  h.invariant (accounts_fresh src) Accounts.step

/-- An account of events alone. -/
theorem Accounts.counted_eq (h : p.Accounts past) {a : Account}
    (hc : ∀ log, a.calls log = 0) (hm : ∀ r : Registry σ δ, a.memory r = 0) :
    a.counted p.session.counters = a.events past := by
  have hmemory : p.registries.total a.memory = 0 := Table.total_eq_zero hm p.registries
  rw [h a, hc, hmemory, Nat.add_zero]

theorem isInner_of_mem_gatherJournal (cs : List Category) (p : Pool src) :
    ∀ e ∈ p.gatherJournal cs, e.isInner = true := by
  induction cs generalizing p with
  | nil => exact fun _ he => by cases he
  | cons c cs ih =>
    intro e he
    rcases List.mem_append.mp he with he | he
    · exact Registry.isInner_of_mem_availabilityJournal c _ _ e he
    · exact ih _ e he

theorem countP_resolveJournal (c : Category) (locale : Option Locale) (key : Option String)
    (expected : Expectation) (getter : Getter σ δ α) (p : Pool src) :
    let journal := p.resolveJournal c locale key expected getter
    let reply : Reply σ δ α := .resolution (p.resolve c locale key expected getter).1
    journal.countP Event.isAsked = (if locale.isSome then 1 else 0) ∧
      journal.countP Event.isNotFound = if reply.isNotFound then 1 else 0 := by
  intro journal reply
  cases locale with
  | none => exact ⟨rfl, rfl⟩
  | some l =>
    have hcount := (p.registry c).1.countP_resolveJournal c ⟨l, key, expected, getter⟩
      (p.registry c).2.session
    refine ⟨hcount.1, hcount.2.trans ?_⟩
    have hreply : reply = .resolution (.ok
        ((p.registry c).1.resolve ⟨l, key, expected, getter⟩ (p.registry c).2.session).1) := rfl
    rw [hreply]
    cases ((p.registry c).1.resolve ⟨l, key, expected, getter⟩ (p.registry c).2.session).1 <;> rfl

/-- A request is asked if it has a locale, and fails if its reply says so. -/
theorem countP_journal (q : Request σ δ α) (p : Pool src) :
    (p.journal q).countP Event.isAsked = (if q.asks then 1 else 0) ∧
      (p.journal q).countP Event.isNotFound = if (p.perform q).1.isNotFound then 1 else 0 := by
  have hinner : ∀ log : List Event, (∀ e ∈ log, e.isInner = true) →
      log.countP Event.isAsked = 0 ∧ log.countP Event.isNotFound = 0 := fun log h =>
    ⟨Event.countP_of_inner h Event.isAsked_of_isInner,
      Event.countP_of_inner h Event.isNotFound_of_isInner⟩
  cases q with
  | resolve c l key expected getter => exact countP_resolveJournal c l key expected getter p
  | localizedObject c l getter => exact countP_resolveJournal c (some l) none .object getter p
  | localizedName c l key getter => exact countP_resolveJournal c (some l) (some key) .name getter p
  | available c => exact hinner _ (Registry.isInner_of_mem_availabilityJournal c _ _)
  | allAvailable =>
    have hgather := hinner _ (isInner_of_mem_gatherJournal Category.all p)
    unfold journal
    dsimp only
    rw [List.countP_append, List.countP_append]
    split
    · exact ⟨rfl, rfl⟩
    · rw [hgather.1, hgather.2]
      exact ⟨rfl, rfl⟩
  | registry c => exact ⟨rfl, rfl⟩
  | kinds c l => exact ⟨rfl, rfl⟩
  | supports c k l => exact ⟨rfl, rfl⟩

/-- The registries whose available locales have been found out, by number. -/
theorem total_computations (t : Table Category (Registry σ δ)) :
    t.total Registry.computations = t.values.countP fun r => r.available.isSome := by
  unfold Table.total Table.values
  induction t.entries with
  | nil => rfl
  | cons e es ih =>
    rw [Table.totalIn, List.map_cons, List.countP_cons, ih, Nat.add_comm]
    rfl

/-- On the long way a request raises the number of candidates by what its journal says. -/
theorem Accounts.examined_resolve (h : p.Accounts past) (c : Category) (l : Locale)
    (key : Option String) (expected : Expectation) (getter : Getter σ δ α) :
    (p.resolve c (some l) key expected getter).2.session.counters.candidatesExamined =
      p.session.counters.candidatesExamined +
        (p.resolveJournal c (some l) key expected getter).countP Event.isExamined := by
  have hafter : (p.resolve c (some l) key expected getter).2.Accounts
      (past ++ p.resolveJournal c (some l) key expected getter) :=
    (row_resolve c (some l) key expected getter p).invariant Accounts.step h
  have hbefore := h.counted_eq (a := .examined) (fun _ => rfl) fun _ => rfl
  have hexamined := hafter.counted_eq (a := .examined) (fun _ => rfl) fun _ => rfl
  rw [Account.events_append, ← hbefore] at hexamined
  exact hexamined

/-- The counters say what happened: how many data were asked for, and of how many nobody
    had any; how many objects were owed and not given; how often kinds were asked for, and
    how often they had to be found out, which are the kinds that are remembered; how often
    available locales were found out, which is once for each registry that remembers them.
    A request is asked once if it has a locale, and without one it changes nothing. On the
    long way it examines at least one candidate and at most all, and all if nobody has the
    datum. -/
theorem counters_account (h : p.History past) :
    let m := p.counters
    m.fastPaths + m.fallbackChains = past.countP Event.isAsked ∧
      m.notFound = past.countP Event.isNotFound ∧
      m.contractViolations = p.session.calls.countP Call.isUnanswered ∧
      m.kindsHits + m.kindsMisses = past.countP Event.isKinds ∧
      m.kindsMisses = p.registries.total (fun r => r.kindsByLocale.size) ∧
      m.availabilityComputations = p.registries.values.countP (fun r => r.available.isSome) ∧
      ∀ {α : Type},
        (∀ q : Request σ δ α, (p.journal q).countP Event.isAsked = (if q.asks then 1 else 0) ∧
          (p.journal q).countP Event.isNotFound =
            if (p.perform q).1.isNotFound then 1 else 0) ∧
        ∀ c key expected (getter : Getter σ δ α),
          p.resolve c none key expected getter = (.error .localeMissing, p) ∧
          ∀ l, (p.registry c).1.hasExternal = true →
            let done := p.resolve c (some l) key expected getter
            m.candidatesExamined + 1 ≤ done.2.counters.candidatesExamined ∧
              done.2.counters.candidatesExamined ≤ m.candidatesExamined + l.candidates.length ∧
              (done.1 = .ok .notFound →
                done.2.counters.candidatesExamined =
                  m.candidatesExamined + l.candidates.length) := by
  intro m
  have hbooks := h.accounts
  have hviolations : m.contractViolations = p.session.calls.countP Call.isUnanswered := by
    have htotal : p.registries.total (Account.memory .violations) = 0 :=
      Table.total_eq_zero (fun _ => rfl) p.registries
    exact (hbooks .violations).trans (by rw [htotal]; exact Nat.zero_add _)
  refine ⟨hbooks.counted_eq (a := .resolutions) (fun _ => rfl) fun _ => rfl,
    hbooks.counted_eq (a := .notFound) (fun _ => rfl) fun _ => rfl, hviolations,
    hbooks.counted_eq (a := .kinds) (fun _ => rfl) fun _ => rfl,
    (hbooks .misses).trans (Nat.zero_add _),
    ((hbooks .computations).trans (Nat.zero_add _)).trans (total_computations _),
    ⟨fun q => countP_journal q p, fun c key expected getter => ⟨rfl, ?_⟩⟩⟩
  intro l hexternal done
  have hexamined : done.2.counters.candidatesExamined = m.candidatesExamined + _ :=
    hbooks.examined_resolve c l key expected getter
  obtain ⟨hone, hall, hnone⟩ := Registry.countP_examined_resolveJournal c
    ⟨l, key, expected, getter⟩ hexternal (p.registry c).2.session
  rw [hexamined]
  refine ⟨Nat.add_le_add_left hone _, Nat.add_le_add_left hall _, fun hdone => ?_⟩
  exact congrArg (m.candidatesExamined + ·) (hnone (Except.ok.inj hdone))

end Pool

/-! ## A pool with something in every counter -/

/-- A name that the built-in adapter has at once, an object that is owed and not there, and a
    request without a locale. -/
def Demo.countedRequests : List (Request Unit (Option NameTable) String) :=
  [.localizedName .collator german "en" NameTable.getter,
   .localizedObject .localeName canadianFrench NameTable.getter,
   .resolve .localeName none none .object NameTable.getter,
   .kinds .localeName german,
   .kinds .localeName german]

def Demo.countedPool : Pool ((Demo.catalog Kind.all).toSource 1) :=
  ((Pool.fresh _ ()).run countedRequests).2

def Demo.countedPast : List Event :=
  (Pool.fresh ((catalog Kind.all).toSource 1) ()).journals countedRequests

theorem Demo.history_countedPool : countedPool.History countedPast :=
  (Pool.History.fresh ()).run countedRequests

theorem Pool.counters_account_demo :
    let p := Demo.countedPool
    let past := Demo.countedPast
    let m := p.counters
    let done := p.resolve .localeName (some Demo.canadianFrench) none .object
      (NameTable.getter : Getter Unit (Option NameTable) String)
    p.History past ∧
      m.fastPaths + m.fallbackChains = 2 ∧ past.countP Event.isAsked = 2 ∧
      m.notFound = 1 ∧ past.countP Event.isNotFound = 1 ∧
      m.contractViolations = 4 ∧ p.session.calls.countP Call.isUnanswered = 4 ∧
      m.kindsHits + m.kindsMisses = 5 ∧ past.countP Event.isKinds = 5 ∧
      m.kindsMisses = 4 ∧ p.registries.total (fun r => r.kindsByLocale.size) = 4 ∧
      m.availabilityComputations = 1 ∧
      p.registries.values.countP (fun r => r.available.isSome) = 1 ∧
      (p.registry .localeName).1.hasExternal = true ∧ done.1 = .ok .notFound ∧
      done.2.counters.candidatesExamined = m.candidatesExamined + 3 := by
  intro p past m done
  obtain ⟨hresolutions, hnotFound, hviolations, hkinds, hmisses, hcomputations, hrequests⟩ :=
    Pool.counters_account Demo.history_countedPool
  have hasked : past.countP Event.isAsked = 2 := by decide
  have hfailed : past.countP Event.isNotFound = 1 := by decide
  have howed : p.session.calls.countP Call.isUnanswered = 4 := by decide
  have hlists : past.countP Event.isKinds = 5 := by decide
  have hremembered : p.registries.total (fun r => r.kindsByLocale.size) = 4 := by decide
  have hfilled : p.registries.values.countP (fun r => r.available.isSome) = 1 := by decide
  have hexternal : (p.registry .localeName).1.hasExternal = true := by decide
  have hdone : done.1 = .ok .notFound := rfl
  have hlength : Demo.canadianFrench.candidates.length = 3 := by decide
  obtain ⟨-, -, hall⟩ := (hrequests.2 .localeName none .object
    (NameTable.getter : Getter Unit (Option NameTable) String)).2 Demo.canadianFrench hexternal
  exact ⟨Demo.history_countedPool, hresolutions.trans hasked, hasked, hnotFound.trans hfailed,
    hfailed, hviolations.trans howed, howed, hkinds.trans hlists, hlists,
    hmisses.trans hremembered, hremembered, hcomputations.trans hfilled, hfilled, hexternal,
    hdone, (hall hdone).trans (congrArg (m.candidatesExamined + ·) hlength)⟩

end LocaleServices

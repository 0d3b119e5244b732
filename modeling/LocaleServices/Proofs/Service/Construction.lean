import LocaleServices.Proofs.Service.Building

/-!
  What making a registry leaves behind.

  A source is asked for its preference, then for the built-in adapter, then for the other
  kinds of its preference in the order of declaration. While callbacks are due, it asks for
  the same registry before it answers, and the last of these requests is the first to be
  done: its registry is kept, every other is announced and discarded. `Pool.Constructs` says
  all of this about one request, with the registries that it discards, and everything else of
  the pool is as before. Main statements: `constructs_registry`, and `registry_eq`, the
  request as the recursion that it is, for which the depth it is given never runs out
  (`registryWithin_eq_registry`).
-/

namespace LocaleServices

variable {σ δ : Type} {src : Source σ δ}

/-- What is said of a registry when it is made. -/
def Registry.announcement (r : Registry σ δ) : List Message :=
  (if r.adapters.contains .builtin then [] else [.noBuiltin r.category]) ++
    [.registryCreated r.category r.adapters.size]

/-- What is said of a registry that is made for nothing. -/
def Registry.dismissal (r : Registry σ δ) : List Message :=
  r.announcement ++ [.registryDiscarded r.category]

/-- The kinds of a preference besides the built-in one, in the order of declaration. -/
def Preference.others (preference : List Kind) : List Kind :=
  Kind.all.filter fun k => k ≠ .builtin ∧ k ∈ preference

/-- What the source is asked for a registry after the built-in adapter. -/
def Registry.questions (r : Registry σ δ) : List Call :=
  (Preference.others r.preference).map (.adapterFor · r.category)

namespace Pool

variable {again again' : Category → Pool src → Pool src} {c : Category} {p : Pool src}

/-- The pool after nothing but calls and messages, in another world. -/
def noting (p : Pool src) (w : σ) (messages : List Message) (calls : List Call) : Pool src :=
  { p with session :=
    ⟨w, p.session.counters, p.session.messages ++ messages, p.session.calls ++ calls⟩ }

theorem noting_noting (p : Pool src) (w w' : σ) (messages messages' : List Message)
    (calls calls' : List Call) :
    (p.noting w messages calls).noting w' messages' calls' =
      p.noting w' (messages ++ messages') (calls ++ calls') := by
  simp only [noting, List.append_assoc]

theorem noting_nil (p : Pool src) (w : σ) :
    p.noting w [] [] = { p with session := { p.session with world := w } } := by
  simp only [noting, List.append_nil]

theorem say_eq_noting (p : Pool src) (m : Message) :
    p.say m = p.noting p.session.world [m] [] := by
  simp [say, Session.say, noting]

/-- A question for an adapter has reached the source. -/
def asking (k : Kind) (c : Category) (p : Pool src) : Pool src :=
  p.noting p.session.world [] [.adapterFor k c]

theorem askAdapter_eq (again : Category → Pool src → Pool src) (k : Kind) (c : Category)
    (p : Pool src) :
    p.askAdapter again k c =
      let q := (p.asking k c).callBack again c
      let answer := src.adapterFor k c q.session.world
      (answer.1, q.noting answer.2 [] []) := by
  simp only [noting_nil]
  simp only [askAdapter, asking, noting, Session.after, List.append_nil]

/-! ## A source that does not call back -/

theorem askAdapter_of_settled (hp : p.callbacks = 0) (again : Category → Pool src → Pool src)
    (k : Kind) (c : Category) :
    p.askAdapter again k c =
      let answer := src.adapterFor k c p.session.world
      (answer.1, p.noting answer.2 [] [.adapterFor k c]) := by
  have hcall : (p.asking k c).callBack again c = p.asking k c := if_pos hp
  rw [askAdapter_eq, hcall]
  simp [asking, noting]

/-- Each kind is asked for once, and nothing else happens. -/
theorem askAdapters_of_settled (hp : p.callbacks = 0) (again : Category → Pool src → Pool src)
    (c : Category) (ks : List Kind) (found : Table Kind (Adapter σ δ)) :
    ∃ w, (p.askAdapters again c ks found).2 = p.noting w [] (ks.map (.adapterFor · c)) := by
  induction ks generalizing p found with
  | nil => exact ⟨p.session.world, by simp [askAdapters, noting]⟩
  | cons k ks ih =>
    rw [askAdapters_cons, askAdapter_of_settled hp]
    obtain ⟨w, hw⟩ := ih (p := p.noting _ [] [.adapterFor k c]) hp _
    exact ⟨w, by rw [hw, noting_noting]; rfl⟩

theorem askAdapters_congr_of_settled (hp : p.callbacks = 0) (ks : List Kind)
    (found : Table Kind (Adapter σ δ)) :
    p.askAdapters again c ks found = p.askAdapters again' c ks found := by
  induction ks generalizing p found with
  | nil => rfl
  | cons k ks ih =>
    rw [askAdapters_cons, askAdapters_cons, askAdapter_of_settled hp,
      askAdapter_of_settled hp]
    exact ih (p := p.noting _ [] [.adapterFor k c]) hp _

/-! ## The first question -/

theorem askedKinds_complete (kinds : List Kind) :
    askedKinds (Preference.complete kinds) =
      .builtin :: Preference.others (Preference.complete kinds) := by
  have hbuiltin := Preference.builtin_mem_complete kinds
  simp [askedKinds, Preference.others, Kind.all, List.filter_cons, hbuiltin]

/-- The ranking that the source names when a registry is made. -/
def ranking (p : Pool src) : List Kind :=
  Preference.complete (src.preference p.session.world).1

/-- A registry is begun, and its source is asked for the built-in adapter. -/
def opened (c : Category) (p : Pool src) : Pool src :=
  { p with started := p.started + 1 }.noting (src.preference p.session.world).2 []
    [.preference, .adapterFor .builtin c]

theorem asking_eq_opened (c : Category) (p : Pool src) :
    { p with started := p.started + 1 }.askPreference.2.asking .builtin c = p.opened c := by
  simp [askPreference, asking, opened, Session.after, noting]

/-- The pool that the source sees when it calls back at the first question. -/
def reentry (c : Category) (p : Pool src) : Pool src :=
  { p.opened c with callbacks := p.callbacks - 1 }

/-- The pool when the source answers the first question. -/
def reentered (again : Category → Pool src → Pool src) (c : Category) (p : Pool src) :
    Pool src :=
  if p.callbacks = 0 then p.opened c else again c (p.reentry c)

/-- The source answers the first question and those that follow. -/
def answered (again : Category → Pool src → Pool src) (c : Category) (p : Pool src) :
    Table Kind (Adapter σ δ) × Pool src :=
  let q := p.reentered again c
  let answer := src.adapterFor .builtin c q.session.world
  (q.noting answer.2 [] []).askAdapters again c (Preference.others p.ranking)
    (match answer.1 with
      | none => .empty
      | some a => Table.empty.insert .builtin a)

/-- The registry that is made. -/
def made (again : Category → Pool src → Pool src) (c : Category) (p : Pool src) :
    Registry σ δ :=
  ⟨p.started, c, p.ranking, (p.answered again c).1, .empty, none⟩

theorem make_eq (again : Category → Pool src → Pool src) (c : Category) (p : Pool src) :
    p.make again c =
      (p.made again c,
        let q := (p.answered again c).2
        q.noting q.session.world (p.made again c).announcement []) := by
  -- The first question is the one for the built-in adapter.
  have hcall : (p.opened c).callBack again c = p.reentered again c := rfl
  have hfirst : { p with started := p.started + 1 }.askPreference.2.askAdapters again c
      (askedKinds p.ranking) .empty = p.answered again c := by
    rw [ranking, askedKinds_complete, askAdapters_cons, askAdapter_eq, asking_eq_opened, hcall]
    rfl
  have hmake : p.make again c =
      (p.made again c,
        ((if (p.answered again c).1.contains .builtin then (p.answered again c).2
          else (p.answered again c).2.say (.noBuiltin c)).say
            (.registryCreated c (p.answered again c).1.size))) := by
    rw [made, ← hfirst]
    rfl
  rw [hmake]
  refine congrArg (Prod.mk _) ?_
  simp only [Registry.announcement, made]
  by_cases hbuiltin : (p.answered again c).1.contains .builtin
  · simp [hbuiltin, say_eq_noting]
  · simp [hbuiltin, say_eq_noting, noting]

/-- Once the source calls back no more, the other kinds are asked for and the registry is
    announced. -/
theorem make_of_settled (again : Category → Pool src → Pool src)
    (h : (p.reentered again c).callbacks = 0) :
    ∃ w, p.make again c =
      (p.made again c, (p.reentered again c).noting w (p.made again c).announcement
        (p.made again c).questions) := by
  obtain ⟨w, hw⟩ := askAdapters_of_settled
    (p := (p.reentered again c).noting
      (src.adapterFor .builtin c (p.reentered again c).session.world).2 [] [])
    h again c (Preference.others p.ranking)
    (match (src.adapterFor .builtin c (p.reentered again c).session.world).1 with
      | none => .empty
      | some a => Table.empty.insert .builtin a)
  have hanswered : (p.answered again c).2 =
      (p.reentered again c).noting w [] (p.made again c).questions :=
    hw.trans (noting_noting ..)
  refine ⟨w, ?_⟩
  rw [make_eq, hanswered]
  simp [noting]

/-! ## One request -/

/-- What the source is asked before it calls back: for its preference and for the built-in
    adapter, this many times. -/
def openings (n : Nat) (c : Category) : List Call :=
  (List.replicate n [.preference, .adapterFor .builtin c]).flatten

/-- A request that constructs the registry of a category, keeps it and discards others, the
    last of which was begun first. -/
structure Constructs (c : Category) (p : Pool src) (discarded : List (Registry σ δ))
    (done : Registry σ δ × Pool src) : Prop where
  isNew : ∀ r ∈ done.1 :: discarded, r.IsNew src c
  serials : (done.1 :: discarded).map Registry.serial =
    ((List.range (p.callbacks + 1)).map (p.started + ·)).reverse
  pool : ∃ w, done.2 =
    { p with
      registries := p.registries.insert c done.1
      callbacks := 0
      started := p.started + (p.callbacks + 1) }.noting w
        (done.1.announcement ++ discarded.flatMap Registry.dismissal)
        (openings (p.callbacks + 1) c ++ (done.1 :: discarded).flatMap Registry.questions)

namespace Constructs

variable {discarded : List (Registry σ δ)} {done : Registry σ δ × Pool src}

theorem callbacks_eq (h : p.Constructs c discarded done) : done.2.callbacks = 0 := by
  obtain ⟨w, hw⟩ := h.pool
  rw [hw]
  rfl

theorem allAvailable_eq (h : p.Constructs c discarded done) :
    done.2.allAvailable = p.allAvailable := by
  obtain ⟨w, hw⟩ := h.pool
  rw [hw]
  rfl

theorem counters_eq (h : p.Constructs c discarded done) : done.2.counters = p.counters := by
  obtain ⟨w, hw⟩ := h.pool
  rw [hw]
  rfl

/-- The last to be begun is kept. -/
theorem serial_eq (h : p.Constructs c discarded done) :
    done.1.serial = p.started + p.callbacks := by
  have hserials := h.serials
  rw [List.range_succ, List.map_append, List.reverse_append] at hserials
  exact (List.cons.inj hserials).1

theorem length_discarded (h : p.Constructs c discarded done) :
    discarded.length = p.callbacks := by
  have hlength := congrArg List.length h.serials
  simpa using hlength

theorem started_eq (h : p.Constructs c discarded done) :
    done.2.started = p.started + (p.callbacks + 1) := by
  obtain ⟨w, hw⟩ := h.pool
  rw [hw]
  rfl

theorem keys_eq (h : p.Constructs c discarded done) (hc : p.registries.find? c = none) :
    done.2.registries.keys = p.registries.keys ++ [c] := by
  obtain ⟨w, hw⟩ := h.pool
  rw [hw]
  exact (Table.keys_insert p.registries c done.1).trans
    (if_neg ((Table.find?_eq_none_iff _ _).mp hc))

theorem find?_eq (h : p.Constructs c discarded done) (c' : Category) :
    done.2.registries.find? c' = if c = c' then some done.1 else p.registries.find? c' := by
  obtain ⟨w, hw⟩ := h.pool
  rw [hw]
  exact Table.find?_insert p.registries c c' done.1

end Constructs

theorem keep_of_some {r kept : Registry σ δ} (h : p.registries.find? c = some kept) :
    p.keep c r = (kept, p.noting p.session.world [.registryDiscarded c] []) := by
  simp only [keep, h, say_eq_noting]

theorem keep_of_none {r : Registry σ δ} (h : p.registries.find? c = none) :
    p.keep c r = (r, { p with registries := p.registries.insert c r }) := by
  simp only [keep, h]

/-- Nobody calls back: the one registry that is made is kept. -/
theorem constructs_of_settled (hp : p.callbacks = 0) (hc : p.registries.find? c = none)
    (again : Category → Pool src → Pool src) :
    p.Constructs c [] ((p.make again c).2.keep c (p.make again c).1) := by
  have hreentered : p.reentered again c = p.opened c := if_pos hp
  obtain ⟨w, hmake⟩ := make_of_settled again
    ((congrArg callbacks hreentered).trans hp)
  have hnew := isNew_make again c p
  rw [hmake] at hnew
  rw [hmake, hreentered, keep_of_none (by exact hc)]
  exact
    { isNew := fun r hr => List.mem_singleton.mp hr ▸ hnew
      serials := by simp [hp, made]
      pool := ⟨w, by simp [hp, noting, opened, openings]⟩ }

/-- The source calls back: the registry that is there by then is kept. -/
theorem keep_make_of_callBack (hp : p.callbacks ≠ 0)
    (again : Category → Pool src → Pool src) {kept : Registry σ δ}
    (hsettled : (again c (p.reentry c)).callbacks = 0)
    (hkept : (again c (p.reentry c)).registries.find? c = some kept) :
    ∃ w, (p.make again c).2.keep c (p.make again c).1 =
      (kept, (again c (p.reentry c)).noting w (p.made again c).dismissal
        (p.made again c).questions) := by
  have hreentered : p.reentered again c = again c (p.reentry c) := if_neg hp
  obtain ⟨w, hmake⟩ := make_of_settled again
    (hreentered ▸ hsettled)
  refine ⟨w, ?_⟩
  rw [hmake, hreentered, keep_of_some (by exact hkept), noting_noting,
    List.append_nil]
  rfl

/-- What is constructed meanwhile is kept, and one more registry is discarded. -/
theorem Constructs.of_callBack {n : Nat} (hp : p.callbacks = n + 1)
    {again : Category → Pool src → Pool src} {discarded : List (Registry σ δ)}
    {kept : Registry σ δ}
    (h : (p.reentry c).Constructs c discarded (kept, again c (p.reentry c))) :
    p.Constructs c (discarded ++ [p.made again c])
      ((p.make again c).2.keep c (p.make again c).1) := by
  obtain ⟨w, hkeep⟩ := keep_make_of_callBack (p := p) (hp ▸ Nat.succ_ne_zero n)
    again h.callbacks_eq ((h.find?_eq c).trans (if_pos rfl))
  obtain ⟨v, hagain⟩ := h.pool
  dsimp only at hagain
  have hnew : (p.made again c).IsNew src c := by
    have hmake := isNew_make again c p
    rwa [make_eq] at hmake
  rw [hkeep, hagain]
  refine
    { isNew := fun r hr => ?_
      serials := ?_
      pool := ⟨w, ?_⟩ }
  · rw [← List.cons_append, List.mem_append, List.mem_singleton] at hr
    exact hr.elim (h.isNew r) fun he => he ▸ hnew
  · have hserials : (kept :: discarded).map Registry.serial =
        ((List.range (n + 1)).map (p.started + 1 + ·)).reverse := by
      have hn : (p.reentry c).callbacks = n := by simp [reentry, hp]
      rw [h.serials, hn]
      rfl
    have hrange : (List.range (n + 1 + 1)).map (p.started + ·) =
        p.started :: (List.range (n + 1)).map (p.started + 1 + ·) := by
      rw [List.range_succ_eq_map]
      simp [Function.comp_def, Nat.add_assoc, Nat.add_comm 1]
    rw [← List.cons_append, List.map_append, hserials, hp, hrange, List.reverse_cons]
    rfl
  · simp [noting, reentry, opened, hp, made, Registry.dismissal, openings, List.replicate_succ,
      Nat.add_assoc, Nat.add_comm 1]

/-- Within any depth that the callbacks cannot exhaust, the request constructs a registry. -/
theorem constructs_registryWithin {n : Nat} (hn : p.callbacks ≤ n)
    (hc : p.registries.find? c = none) :
    ∃ discarded, p.Constructs c discarded (registryWithin n c p) := by
  -- On the depth, for all pools: a callback has one callback less before it.
  induction n generalizing p with
  | zero =>
    have hregistry : registryWithin 0 c p =
        (p.make (fun _ p => p) c).2.keep c (p.make (fun _ p => p) c).1 := by
      simp only [registryWithin, hc]
    rw [hregistry]
    exact ⟨[], constructs_of_settled (Nat.le_zero.mp hn) hc _⟩
  | succ n ih =>
    have hregistry : registryWithin (n + 1) c p =
        (p.make (fun c p => (registryWithin n c p).2) c).2.keep c
          (p.make (fun c p => (registryWithin n c p).2) c).1 := by
      simp only [registryWithin, hc]
    rw [hregistry]
    cases hp : p.callbacks with
    | zero => exact ⟨[], constructs_of_settled hp hc _⟩
    | succ m =>
      obtain ⟨discarded, h⟩ := ih (p := p.reentry c) (by simp only [reentry]; omega) hc
      exact ⟨_, h.of_callBack hp⟩

/-- A request for a registry that is not there constructs it. -/
theorem constructs_registry (hc : p.registries.find? c = none) :
    ∃ discarded, p.Constructs c discarded (p.registry c) :=
  constructs_registryWithin (Nat.le_refl _) hc

/-! ## The request as a recursion -/

/-- Only the answer to the first question can call back. -/
theorem make_congr (h : p.reentered again c = p.reentered again' c)
    (hsettled : (p.reentered again c).callbacks = 0) : p.make again c = p.make again' c := by
  have hanswered : p.answered again c = p.answered again' c := by
    unfold answered
    rw [← h]
    exact askAdapters_congr_of_settled (p := (p.reentered again c).noting _ [] []) hsettled _ _
  have hmade : p.made again c = p.made again' c := by
    simp only [made, hanswered]
  rw [make_eq, make_eq, hmade, hanswered]

/-- A registry that is not there is made, with callbacks as deep as one less. -/
theorem registryWithin_of_none {n : Nat} (hn : p.callbacks ≤ n)
    (hc : p.registries.find? c = none)
    (h : ∀ m, n = m + 1 → again c (p.reentry c) = (registryWithin m c (p.reentry c)).2) :
    registryWithin n c p = (p.make again c).2.keep c (p.make again c).1 := by
  cases n with
  | zero =>
    have hp : p.callbacks = 0 := Nat.le_zero.mp hn
    have hmake : p.make (fun _ p => p) c = p.make again c := by
      have hreentered : ∀ again, p.reentered again c = p.opened c := fun _ => if_pos hp
      exact make_congr ((hreentered _).trans (hreentered _).symm)
        ((congrArg callbacks (hreentered _)).trans hp)
    simp only [registryWithin, hc, hmake]
  | succ m =>
    have hmake : p.make (fun c p => (registryWithin m c p).2) c = p.make again c := by
      refine make_congr ?_ ?_
      · unfold reentered
        rw [h m rfl]
      · unfold reentered
        split
        · assumption
        · obtain ⟨_, hm⟩ := constructs_registryWithin (n := m) (p := p.reentry c) (c := c)
            (by simp only [reentry]; omega) hc
          exact hm.callbacks_eq
    simp only [registryWithin, hc, hmake]

/-- The request as it is written, with a callback as one more request. -/
theorem registry_of_none (hc : p.registries.find? c = none) :
    p.registry c =
      let done := p.make (fun c q => (q.registry c).2) c
      done.2.keep c done.1 := by
  refine registryWithin_of_none (Nat.le_refl _) hc fun m hm => ?_
  have hreentry : (p.reentry c).callbacks = m := by simp only [reentry, hm, Nat.add_sub_cancel]
  rw [registry, hreentry]

/-- The source calls back: what it is given is kept. -/
theorem registry_of_callBack (hp : p.callbacks ≠ 0) (hc : p.registries.find? c = none) :
    (p.registry c).1 = ((p.reentry c).registry c).1 := by
  obtain ⟨_, h⟩ := constructs_registry (p := p.reentry c) hc
  obtain ⟨w, hkeep⟩ := keep_make_of_callBack hp (fun c q => (q.registry c).2)
    h.callbacks_eq (find?_registry c (p.reentry c))
  rw [registry_of_none hc, hkeep]

/-- The depth never runs out: every depth that covers the callbacks gives the same. -/
theorem registryWithin_eq_registry {n : Nat} (hn : p.callbacks ≤ n) (c : Category) :
    registryWithin n c p = p.registry c := by
  induction n generalizing p with
  | zero =>
    unfold registry
    rw [Nat.le_zero.mp hn]
  | succ n ih =>
    cases hc : p.registries.find? c with
    | some r => rw [registryWithin_of_find? hc, registry_of_find? hc]
    | none =>
      rw [registry_of_none hc]
      refine registryWithin_of_none hn hc fun m hm => ?_
      cases hm
      rw [ih (p := p.reentry c) (by simp only [reentry]; omega)]

end Pool

end LocaleServices

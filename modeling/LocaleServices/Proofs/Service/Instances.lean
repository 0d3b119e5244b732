import LocaleServices.Proofs.Service.Alike
import LocaleServices.Proofs.Service.Frozen

/-!
  One registry per category.

  Registries are told apart by their numbers. `Pool.Nested` are the requests for a registry
  that one such request comes to, when the source calls back, and `registryCalls` those that
  a request to the pool comes to; `Pool.Requested` are the pools in use, with all of these so
  far. Each is answered with the registry that is still there in the end (`Requested.stays`),
  and different categories have different ones (`Reachable.numbered`). Main statement:
  `one_registry_per_category`.
-/

namespace LocaleServices

variable {σ δ α β : Type} {src : Source σ δ}

namespace Pool

variable {p q : Pool src} {c : Category} {past : List (Category × Pool src)}

/-! ## Requests within a request -/

/-- The pools on which the source asks for a registry while it is asked for adapters. -/
def reentries (again : Category → Pool src → Pool src) (c : Category) :
    List Kind → Pool src → List (Pool src)
  | [], _ => []
  | k :: ks, p =>
    let asked := p.asking k c
    (if asked.callbacks = 0 then [] else [{ asked with callbacks := asked.callbacks - 1 }]) ++
      reentries again c ks (p.askAdapter again k c).2

/-- The pools on which the source asks for a registry while that registry is made. -/
def callers (c : Category) (p : Pool src) : List (Pool src) :=
  reentries (fun c q => (q.registry c).2) c (askedKinds p.ranking)
    { p with started := p.started + 1 }.askPreference.2

theorem reentries_of_settled (hp : p.callbacks = 0) (again : Category → Pool src → Pool src)
    (c : Category) (ks : List Kind) : reentries again c ks p = [] := by
  induction ks generalizing p with
  | nil => rfl
  | cons k ks ih =>
    have hfirst : (p.asking k c).callbacks = 0 := hp
    simp only [reentries, if_pos hfirst, List.nil_append]
    rw [askAdapter_of_settled hp]
    exact ih hp

/-- The source calls back at the first question or not at all. -/
theorem callers_eq (hc : p.registries.find? c = none) :
    p.callers c = if p.callbacks = 0 then [] else [p.reentry c] := by
  let again := fun c (q : Pool src) => (q.registry c).2
  have hsettled : (p.reentered again c).callbacks = 0 := by
    unfold reentered
    split
    · assumption
    · obtain ⟨_, h⟩ := constructs_registry (p := p.reentry c) (c := c) hc
      exact h.callbacks_eq
  have hcall : (p.opened c).callBack again c = p.reentered again c := rfl
  have hrest := reentries_of_settled
    (p := (p.reentered again c).noting
      (src.adapterFor .builtin c (p.reentered again c).session.world).2 [] [])
    hsettled again c (Preference.others p.ranking)
  unfold callers
  rw [ranking, askedKinds_complete]
  simp only [reentries, askAdapter_eq, asking_eq_opened]
  rw [hcall]
  exact (congrArg (_ ++ ·) hrest).trans (List.append_nil _)

/-- The requests that a request for the registry of a category comes to: the request itself,
    and those of the source while the registry is made. -/
inductive Nested (c : Category) : Pool src → Pool src → Prop
  | self (p : Pool src) : Nested c p p
  | callBack {p q q' : Pool src} (hc : p.registries.find? c = none) (hq : q ∈ p.callers c)
      (h : Nested c q q') : Nested c p q'

/-- All of them are answered alike. -/
theorem Nested.registry_eq (h : Nested c p q) : (q.registry c).1 = (p.registry c).1 := by
  induction h with
  | self => rfl
  | callBack hc hq _ ih =>
    rw [callers_eq hc] at hq
    split at hq
    · cases hq
    · rename_i hp
      rw [ih, List.mem_singleton.mp hq, registry_of_callBack hp hc]

/-! ## The requests of a run -/

/-- The requests for registries on the way to the available locales of some categories. -/
def gatherCalls : List Category → Pool src → List (Category × Pool src)
  | [], _ => []
  | c :: cs, p => (c, p) :: gatherCalls cs (p.availableLocales c).2

/-- The requests for registries that a request to the pool comes to, each with the pool as it
    is by then. -/
def registryCalls (p : Pool src) : Request σ δ α → List (Category × Pool src)
  | .resolve c l _ _ _ => if l.isSome then [(c, p)] else []
  | .localizedObject c _ _ => [(c, p)]
  | .localizedName c _ _ _ => [(c, p)]
  | .available c => [(c, p)]
  | .allAvailable => if p.allAvailable.isSome then [] else p.gatherCalls Category.all
  | .registry c => [(c, p)]
  | .kinds c _ => [(c, p)]
  | .supports c _ _ => [(c, p)]

/-- The pools that a fresh pool becomes by requests, with all requests for registries that
    were not made by the source. -/
inductive Requested : List (Category × Pool src) → Pool src → Prop
  | fresh (w : σ) : Requested [] (Pool.fresh src w)
  | perform {α : Type} {past : List (Category × Pool src)} {p : Pool src}
      (request : Request σ δ α) (h : Requested past p) :
      Requested (past ++ p.registryCalls request) (p.perform request).2

theorem Requested.reachable (h : p.Requested past) : p.Reachable := by
  induction h with
  | fresh w => exact .fresh w
  | perform request _ ih => exact ih.perform request

theorem retains_onRegistry {work : Registry σ δ → Session σ → β × Registry σ δ × Session σ}
    {log : Registry σ δ → Session σ → List Event}
    (h : ∀ r s, Row (Registry.Step c) (r, s) (log r s) (work r s).2) (p : Pool src) :
    (p.registry c).2.Retains (p.onRegistry c work).2 :=
  retains_of_row (row_afterWork (h _ _) (find?_registry c p) rfl)

theorem retains_gatherAvailable {x : Category × Pool src} {cs : List Category}
    (hx : x ∈ p.gatherCalls cs) : (x.2.registry x.1).2.Retains (p.gatherAvailable cs).2 := by
  induction cs generalizing p with
  | nil => cases hx
  | cons c cs ih =>
    rcases List.mem_cons.mp hx with rfl | hx
    · exact (retains_onRegistry (fun r s => .single (.available r s)) p).trans
        (retains_of_row (row_gatherAvailable cs (p.availableLocales c).2))
    · exact ih hx

theorem retains_united (gathered : List Locale × Pool src) :
    gathered.2.Retains (united gathered).2 := fun _ r hr => ⟨r, hr, .refl r⟩

/-- What a request for a registry leaves is still there at the end of the request that came
    to it. -/
theorem retains_of_mem_registryCalls {x : Category × Pool src} {request : Request σ δ α}
    (hx : x ∈ p.registryCalls request) :
    (x.2.registry x.1).2.Retains (p.perform request).2 := by
  cases request with
  | resolve c l key expected getter =>
    cases l with
    | none => cases hx
    | some l =>
      cases List.mem_singleton.mp hx
      exact retains_onRegistry (fun r s => r.row_resolve c ⟨l, key, expected, getter⟩ s) p
  | localizedObject c l getter =>
    cases List.mem_singleton.mp hx
    exact retains_onRegistry (fun r s => r.row_resolve c ⟨l, none, .object, getter⟩ s) p
  | localizedName c l key getter =>
    cases List.mem_singleton.mp hx
    exact retains_onRegistry (fun r s => r.row_resolve c ⟨l, some key, .name, getter⟩ s) p
  | available c =>
    cases List.mem_singleton.mp hx
    exact retains_onRegistry (fun r s => .single (.available r s)) p
  | allAvailable =>
    cases hall : p.allAvailable with
    | some ls => simp [registryCalls, hall] at hx
    | none =>
      have hcalls : x ∈ p.gatherCalls Category.all := by simpa [registryCalls, hall] using hx
      have hgather := retains_gatherAvailable hcalls
      change (x.2.registry x.1).2.Retains p.allAvailableLocales.2
      rw [allAvailableLocales_of_none hall]
      exact hgather.trans (retains_united _)
  | registry c =>
    cases List.mem_singleton.mp hx
    exact .refl _
  | kinds c l =>
    cases List.mem_singleton.mp hx
    exact retains_onRegistry (fun r s => .single (.kinds l r s)) p
  | supports c k l =>
    cases List.mem_singleton.mp hx
    exact retains_onRegistry (fun r s => Registry.row_supports c k l r s) p

theorem retains_perform (request : Request σ δ α) (p : Pool src) :
    p.Retains (p.perform request).2 :=
  retains_of_row (row_perform request p)

/-- Every request for a registry was answered with the one that is there in the end. -/
theorem Requested.stays (h : p.Requested past) {x : Category × Pool src} (hx : x ∈ past) :
    ∃ r, p.registries.find? x.1 = some r ∧ (x.2.registry x.1).1.Becomes r := by
  induction h with
  | fresh => cases hx
  | perform request _ ih =>
    rcases List.mem_append.mp hx with hx | hx
    · obtain ⟨r, hr, hb⟩ := ih hx
      obtain ⟨r', hr', hb'⟩ := retains_perform request _ _ r hr
      exact ⟨r', hr', hb.trans hb'⟩
    · exact retains_of_mem_registryCalls hx _ _ (find?_registry x.1 x.2)

/-! ## Numbers -/

/-- What holds at first and is kept by requests for registries, by work on registries and by
    uniting categories holds of every pool in use. -/
theorem Reachable.invariant {I : Pool src → Prop} (fresh : ∀ w, I (Pool.fresh src w))
    (registry : ∀ {p} c, I p → I (p.registry c).2)
    (work : ∀ {p c r log done}, I p → p.registries.find? c = some r →
      Row (Registry.Step c) (r, p.session) log done → I (p.afterWork c done))
    (unite : ∀ gathered : List Locale × Pool src, I gathered.2 → I (united gathered).2)
    (hp : p.Reachable) : I p := by
  have onRegistry : ∀ {β : Type} {c : Category}
      {work : Registry σ δ → Session σ → β × Registry σ δ × Session σ}
      {log : Registry σ δ → Session σ → List Event} {p : Pool src}
      (_ : ∀ r s, Row (Registry.Step c) (r, s) (log r s) (work r s).2),
      I p → I (p.onRegistry c work).2 := fun {_ c _ _ p} h hI =>
    work (registry c hI) (find?_registry c p) (h _ _)
  have gather : ∀ (cs : List Category) {p : Pool src}, I p → I (p.gatherAvailable cs).2 := by
    intro cs
    induction cs with
    | nil => exact id
    | cons c cs ih => exact fun hI => ih (onRegistry (fun r s => .single (.available r s)) hI)
  induction hp with
  | fresh w => exact fresh w
  | @perform α p request _ ih =>
    cases request with
    | resolve c l key expected getter =>
      cases l with
      | none => exact ih
      | some l => exact onRegistry (fun r s => r.row_resolve c ⟨l, key, expected, getter⟩ s) ih
    | localizedObject c l getter =>
      exact onRegistry (fun r s => r.row_resolve c ⟨l, none, .object, getter⟩ s) ih
    | localizedName c l key getter =>
      exact onRegistry (fun r s => r.row_resolve c ⟨l, some key, .name, getter⟩ s) ih
    | available c => exact onRegistry (fun r s => .single (.available r s)) ih
    | allAvailable =>
      change I p.allAvailableLocales.2
      cases hall : p.allAvailable with
      | some ls =>
        unfold allAvailableLocales
        rw [hall]
        exact ih
      | none =>
        rw [allAvailableLocales_of_none hall]
        exact unite _ (gather Category.all ih)
    | registry c => exact registry c ih
    | kinds c l => exact onRegistry (fun r s => .single (.kinds l r s)) ih
    | supports c k l => exact onRegistry (fun r s => Registry.row_supports c k l r s) ih

/-- The registries of a pool have different numbers, all of which were handed out, and the
    callbacks are due until the first registry is there. -/
structure Numbered (p : Pool src) : Prop where
  below : ∀ c r, p.registries.find? c = some r → r.serial < p.started
  distinct : ∀ c c' r r', p.registries.find? c = some r → p.registries.find? c' = some r' →
    r.serial = r'.serial → c = c'
  started : p.started =
    if p.registries.keys = [] then 0 else src.callbacks + p.registries.keys.length
  callbacks : p.callbacks = if p.registries.keys = [] then src.callbacks else 0

theorem numbered_fresh (src : Source σ δ) (w : σ) : (Pool.fresh src w).Numbered where
  below := fun _ _ h => by cases h
  distinct := fun _ _ _ _ h => by cases h
  started := rfl
  callbacks := rfl

theorem Numbered.registry (h : p.Numbered) (c : Category) : (p.registry c).2.Numbered := by
  cases hc : p.registries.find? c with
  | some r =>
    rw [registry_of_find? hc]
    exact h
  | none =>
    obtain ⟨_, hmade⟩ := constructs_registry hc
    have hserial := hmade.serial_eq
    have hstarted := hmade.started_eq
    have hkeys := hmade.keys_eq hc
    have hnone := hmade.callbacks_eq
    -- A registry of another category was there before and has a smaller number.
    have hbefore : ∀ c' r, c ≠ c' → (p.registry c).2.registries.find? c' = some r →
        p.registries.find? c' = some r := fun c' r hne hr => by
      rwa [hmade.find?_eq, if_neg hne] at hr
    have hkept : ∀ r, (p.registry c).2.registries.find? c = some r → r = (p.registry c).1 :=
      fun r hr => by
        rw [hmade.find?_eq, if_pos rfl, Option.some.injEq] at hr
        exact hr.symm
    generalize p.registry c = done at hserial hstarted hkeys hnone hbefore hkept ⊢
    constructor
    · intro c' r hr
      by_cases he : c = c'
      · subst he
        rw [hkept r hr]
        omega
      · have hlt := h.below c' r (hbefore c' r he hr)
        omega
    · intro c₁ c₂ r₁ r₂ hr₁ hr₂ heq
      by_cases he₁ : c = c₁
      · subst he₁
        by_cases he₂ : c = c₂
        · exact he₂
        · have hlt := h.below c₂ r₂ (hbefore c₂ r₂ he₂ hr₂)
          rw [hkept r₁ hr₁] at heq
          omega
      · have hlt := h.below c₁ r₁ (hbefore c₁ r₁ he₁ hr₁)
        by_cases he₂ : c = c₂
        · subst he₂
          rw [hkept r₂ hr₂] at heq
          omega
        · exact h.distinct c₁ c₂ r₁ r₂ (hbefore c₁ r₁ he₁ hr₁) (hbefore c₂ r₂ he₂ hr₂) heq
    · rw [hstarted, hkeys, h.started, h.callbacks]
      by_cases hempty : p.registries.keys = []
      · simp [hempty]
      · simp [hempty, Nat.add_assoc]
    · rw [hnone, hkeys, if_neg (by simp)]

theorem Numbered.afterWork (h : p.Numbered) {r : Registry σ δ}
    {done : Registry σ δ × Session σ} (hc : p.registries.find? c = some r)
    (hb : r.Becomes done.1) : (p.afterWork c done).Numbered := by
  have hbefore : ∀ c' r', (p.afterWork c done).registries.find? c' = some r' →
      ∃ r'', p.registries.find? c' = some r'' ∧ r''.serial = r'.serial := by
    intro c' r' hr'
    rw [find?_afterWork] at hr'
    by_cases he : c = c'
    · rw [if_pos he, Option.some.injEq] at hr'
      exact ⟨r, he ▸ hc, hr' ▸ hb.serial.symm⟩
    · rw [if_neg he] at hr'
      exact ⟨r', hr', rfl⟩
  have hkeys : (p.afterWork c done).registries.keys = p.registries.keys := by
    have hmem : c ∈ p.registries.keys := by
      by_contra hnot
      rw [(Table.find?_eq_none_iff _ _).mpr hnot] at hc
      cases hc
    exact (Table.keys_insert p.registries c done.1).trans (if_pos hmem)
  constructor
  · intro c' r' hr'
    obtain ⟨r'', hr'', hserial⟩ := hbefore c' r' hr'
    exact hserial ▸ h.below c' r'' hr''
  · intro c₁ c₂ r₁ r₂ hr₁ hr₂ heq
    obtain ⟨r₁', hr₁', hserial₁⟩ := hbefore c₁ r₁ hr₁
    obtain ⟨r₂', hr₂', hserial₂⟩ := hbefore c₂ r₂ hr₂
    exact h.distinct c₁ c₂ r₁' r₂' hr₁' hr₂' (hserial₁.trans (heq.trans hserial₂.symm))
  · rw [hkeys]
    exact h.started
  · rw [hkeys]
    exact h.callbacks

theorem Reachable.numbered (hp : p.Reachable) : p.Numbered :=
  hp.invariant (numbered_fresh src) (fun c h => h.registry c)
    (fun h hc hw => h.afterWork hc (Registry.becomes_of_row hw))
    (fun _ h => ⟨h.below, h.distinct, h.started, h.callbacks⟩)

/-- A request that comes to no request for a registry changes nothing. -/
theorem perform_of_registryCalls_eq_nil {request : Request σ δ α}
    (h : p.registryCalls request = []) : (p.perform request).2 = p := by
  cases request with
  | resolve c l key expected getter =>
    cases l with
    | none => rfl
    | some l => cases h
  | allAvailable =>
    cases hall : p.allAvailable with
    | some ls =>
      change p.allAvailableLocales.2 = p
      unfold allAvailableLocales
      rw [hall]
    | none => simp [registryCalls, hall, gatherCalls, Category.all] at h
  | localizedObject | localizedName | available | registry | kinds | supports => cases h

/-- There are registries once one was requested. -/
theorem Requested.keys_eq_nil_iff (h : p.Requested past) :
    p.registries.keys = [] ↔ past = [] := by
  constructor
  · intro hkeys
    refine List.eq_nil_iff_forall_not_mem.mpr fun x hx => ?_
    obtain ⟨r, hr, _⟩ := h.stays hx
    have hnone : p.registries.find? x.1 = none :=
      (Table.find?_eq_none_iff _ _).mpr (by simp [hkeys])
    rw [hnone] at hr
    cases hr
  · intro hpast
    induction h with
    | fresh => rfl
    | perform request _ ih =>
      obtain ⟨hpast, hcalls⟩ := List.append_eq_nil_iff.mp hpast
      rw [perform_of_registryCalls_eq_nil hcalls]
      exact ih hpast

/-! ## One registry per category -/

/-- The pool as it would be if the registry of a category had been there without being made,
    in another world. -/
def given (c : Category) (r : Registry σ δ) (w : σ) (p : Pool src) : Pool src :=
  { p with
    registries := p.registries.insert c r
    callbacks := 0
    session := { p.session with world := w } }

/-- Discarded registries leave nothing behind but numbers, messages and calls. -/
theorem Numbered.alike_given (h : p.Numbered) (c : Category) :
    (p.registry c).2.Alike (p.given c (p.registry c).1 (p.registry c).2.session.world) := by
  cases hc : p.registries.find? c with
  | some r =>
    have hkeys : p.registries.keys ≠ [] := fun hkeys => by
      rw [(Table.find?_eq_none_iff _ _).mpr (by simp [hkeys])] at hc
      cases hc
    have hp : p.callbacks = 0 := h.callbacks.trans (if_neg hkeys)
    have hgiven : p.given c r p.session.world = p := by
      rw [given, Table.insert_of_find? hc, ← hp]
    rw [registry_of_find? hc, hgiven]
    exact alike_self hp
  | none =>
    obtain ⟨_, hmade⟩ := constructs_registry hc
    have hgiven : ∀ c', (p.given c (p.registry c).1
        (p.registry c).2.session.world).registries.find? c' =
          if c = c' then some (p.registry c).1 else p.registries.find? c' :=
      fun c' => Table.find?_insert p.registries c c' _
    refine ⟨fun c' => ?_, hmade.allAvailable_eq, ⟨rfl, hmade.counters_eq⟩,
      Or.inr ⟨hmade.callbacks_eq, rfl⟩⟩
    rw [hmade.find?_eq, hgiven]
    exact alike_stored _

/-- One registry for each category, however often the source calls back. Every request for
    one in a run, also within another, is answered with the registry that is there in the
    end; different categories have different ones, and no request replaces or removes any.
    A request is the recursion that it is written as, within any depth that covers the
    callbacks. The first one constructs one registry more than there are callbacks, every
    later one that finds none constructs one; the last to be begun is kept. What is discarded
    makes no difference to any later requests, and over a source that leaves the world as it
    is, neither do the callbacks. -/
theorem one_registry_per_category (h : p.Requested past) (c : Category) :
    let done := p.registry c
    (∀ x ∈ past, ∀ q, Nested x.1 x.2 q →
      ∃ r, p.registries.find? x.1 = some r ∧ (q.registry x.1).1.Becomes r) ∧
    (∀ x ∈ past, ∀ y ∈ past, ∀ q q', Nested x.1 x.2 q → Nested y.1 y.2 q' →
      ((q.registry x.1).1.serial = (q'.registry y.1).1.serial ↔ x.1 = y.1)) ∧
    (∀ {α : Type} (request : Request σ δ α), p.Retains (p.perform request).2) ∧
    (done = match p.registries.find? c with
      | some r => (r, p)
      | none =>
        let made := p.make (fun c q => (q.registry c).2) c
        made.2.keep c made.1) ∧
    (∀ depth, p.callbacks ≤ depth → registryWithin depth c p = done) ∧
    (p.registries.find? c = none → ∃ discarded,
      discarded.length = (if past = [] then src.callbacks else 0) ∧
        p.Constructs c discarded done) ∧
    p.started = (if past = [] then 0 else src.callbacks + p.registries.keys.length) ∧
    (∀ {α : Type} (requests : List (Request σ δ α)),
      let alone := p.given c done.1 done.2.session.world
      List.Forall₂ Reply.Alike (done.2.run requests).1 (alone.run requests).1 ∧
        (done.2.run requests).2.Alike (alone.run requests).2) ∧
    (src.LeavesWorld → ∀ (w : σ) {α : Type} (requests : List (Request σ δ α)),
      let fresh := Pool.fresh src w
      List.Forall₂ Reply.Alike (fresh.run requests).1 (fresh.settled.run requests).1 ∧
        (fresh.run requests).2.Alike (fresh.settled.run requests).2) := by
  intro done
  have hnumbered := h.reachable.numbered
  have hstays : ∀ x ∈ past, ∀ q, Nested x.1 x.2 q →
      ∃ r, p.registries.find? x.1 = some r ∧ (q.registry x.1).1.Becomes r := by
    intro x hx q hq
    rw [hq.registry_eq]
    exact h.stays hx
  refine ⟨hstays, ?_, fun request => retains_perform request p, ?_,
    fun depth hdepth => registryWithin_eq_registry hdepth c, ?_, ?_,
    fun requests => (hnumbered.alike_given c).run requests, ?_⟩
  · intro x hx y hy q q' hq hq'
    obtain ⟨r, hr, hb⟩ := hstays x hx q hq
    obtain ⟨r', hr', hb'⟩ := hstays y hy q' hq'
    rw [← hb.serial, ← hb'.serial]
    refine ⟨hnumbered.distinct _ _ _ _ hr hr', fun he => ?_⟩
    rw [he, hr', Option.some.injEq] at hr
    rw [hr]
  · cases hc : p.registries.find? c with
    | some r => exact registry_of_find? hc
    | none => exact registry_of_none hc
  · intro hc
    obtain ⟨discarded, hmade⟩ := constructs_registry hc
    refine ⟨discarded, ?_, hmade⟩
    rw [hmade.length_discarded, hnumbered.callbacks]
    simp only [h.keys_eq_nil_iff]
  · rw [hnumbered.started]
    simp only [h.keys_eq_nil_iff]
  · intro hsrc w α requests fresh
    have halike : fresh.Alike fresh.settled :=
      ⟨fun _ => .none, rfl, .refl _, Or.inl hsrc⟩
    exact halike.run requests

end Pool

/-! ## A source that calls back twice -/

/-- The demonstration names, from a source that calls back twice. -/
def Demo.insistentSource : Source Unit (Option NameTable) := (catalog Kind.all).toSource 2

theorem Demo.leavesWorld_insistentSource : insistentSource.LeavesWorld :=
  ⟨fun _ => rfl, fun _ _ _ => rfl⟩

/-- Three registries are made for the first category, of which the last one begun is kept, and
    one for the second. -/
theorem Pool.one_registry_per_category_insistent :
    let p := Pool.fresh Demo.insistentSource ()
    let p' := (p.perform (.kinds .localeName Demo.german : Request _ _ Unit)).2
    let p'' := (p'.perform (.registry .collator : Request _ _ Unit)).2
    let inner := (p.reentry .localeName).reentry .localeName
    p.Requested [] ∧ p''.Requested [(.localeName, p), (.collator, p')] ∧
      Nested .localeName p inner ∧
      (inner.registry .localeName).1.serial = 2 ∧ (p.registry .localeName).1.serial = 2 ∧
      (p'.registry .collator).1.serial = 3 ∧
      (∃ r, p''.registries.find? .localeName = some r ∧
        (inner.registry .localeName).1.Becomes r) ∧
      (∃ discarded, discarded.length = 2 ∧
        p.Constructs .localeName discarded (p.registry .localeName)) ∧
      (p.registry .localeName).2.session.messages =
        [.registryCreated .localeName 2, .registryCreated .localeName 2,
          .registryDiscarded .localeName, .registryCreated .localeName 2,
          .registryDiscarded .localeName] ∧
      p''.started = 4 ∧
      ∀ requests : List (Request Unit (Option NameTable) Unit),
        List.Forall₂ Reply.Alike (p.run requests).1 (p.settled.run requests).1 := by
  intro p p' p'' inner
  have hp : p.Requested [] := .fresh ()
  have hp'' : p''.Requested [(.localeName, p), (.collator, p')] :=
    (hp.perform (.kinds .localeName Demo.german : Request _ _ Unit)).perform
      (.registry .collator : Request _ _ Unit)
  have hinner : Nested .localeName p inner := by
    refine .callBack (q := p.reentry .localeName) rfl ?_ (.callBack (q := inner) rfl ?_ (.self _))
    · rw [callers_eq rfl]
      exact List.mem_singleton_self _
    · rw [callers_eq rfl]
      exact List.mem_singleton_self _
  obtain ⟨-, -, -, -, -, hmade, -⟩ := Pool.one_registry_per_category hp .localeName
  obtain ⟨hstays, hserial, -, -, -, -, hstarted, -, hresults⟩ :=
    Pool.one_registry_per_category hp'' .collator
  have hfirst : (.localeName, p) ∈ [(Category.localeName, p), (.collator, p')] :=
    List.mem_cons_self
  have hsame := hserial _ hfirst _ hfirst inner p hinner (.self p)
  have hkept := hstays _ hfirst inner hinner
  dsimp only at hsame hkept
  have hlast : (p.registry .localeName).1.serial = 2 := by decide
  have hnext : (p'.registry .collator).1.serial = 3 := by decide
  have hmessages : (p.registry .localeName).2.session.messages =
      [.registryCreated .localeName 2, .registryCreated .localeName 2,
        .registryDiscarded .localeName, .registryCreated .localeName 2,
        .registryDiscarded .localeName] := by decide
  have hkeys : p''.registries.keys = [.localeName, .collator] := by decide
  rw [hkeys] at hstarted
  refine ⟨hp, hp'', hinner, (hsame.mpr rfl).trans hlast, hlast, hnext, hkept, hmade rfl,
    hmessages, hstarted, fun requests => ?_⟩
  exact (hresults Demo.leavesWorld_insistentSource () requests).1

end LocaleServices

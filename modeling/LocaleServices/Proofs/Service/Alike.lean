import LocaleServices.Proofs.Service.Construction
import Mathlib.Data.List.Forall2

/-!
  What makes no difference to the answers of a pool.

  Two pools are alike (`Pool.Alike`) when they have the same registries up to the numbers of
  these, remember the same locales of all categories, and stand in the same world with the
  same counters; how many registries were begun, the messages and the calls may differ. Work
  on registries sees no difference (`Registry.Alike.resolve` and its like). Neither does a
  request for a registry when no more callbacks are due, or when questions to the source
  leave the world as it is (`Source.LeavesWorld`). Main statement: `Pool.Alike.run`.
-/

namespace LocaleServices

variable {σ δ α β : Type} {src : Source σ δ}

/-! ## Sessions -/

/-- Sessions in the same world and with the same counters, whatever was recorded. -/
structure Session.Alike (s s' : Session σ) : Prop where
  world : s.world = s'.world
  counters : s.counters = s'.counters

namespace Session.Alike

variable {s s' : Session σ}

theorem refl (s : Session σ) : s.Alike s := ⟨rfl, rfl⟩

theorem count (h : s.Alike s') (n : Counter) : (s.count n).Alike (s'.count n) :=
  ⟨h.world, congrArg (·.add 1 n) h.counters⟩

theorem say (h : s.Alike s') (m m' : Message) : (s.say m).Alike (s'.say m') :=
  ⟨h.world, h.counters⟩

theorem list (h : s.Alike s') (a : Adapter σ δ) (whom whom' : Addressee) (purpose : Purpose) :
    (s.list a whom purpose).1 = (s'.list a whom' purpose).1 ∧
      (s.list a whom purpose).2.Alike (s'.list a whom' purpose).2 := by
  unfold Session.list
  rw [h.world]
  exact ⟨rfl, rfl, h.counters⟩

theorem test (h : s.Alike s') (a : Adapter σ δ) (whom whom' : Addressee) (l : Locale) :
    (s.test a whom l).1 = (s'.test a whom' l).1 ∧
      (s.test a whom l).2.Alike (s'.test a whom' l).2 := by
  unfold Session.test
  cases a.support with
  | own own => exact ⟨by rw [h.world], by simp only [after, h.world], h.counters⟩
  | derived =>
    obtain ⟨hlisted, hlist⟩ := h.list a whom whom' .support
    dsimp only
    rw [hlisted]
    split
    · exact ⟨rfl, h⟩
    · exact ⟨rfl, hlist⟩

theorem get (h : s.Alike s') (getter : Getter σ δ α) (a : Adapter σ δ)
    (whom whom' : Addressee) (l : Locale) (key : Option String) (expected : Expectation) :
    (s.get getter a whom l key expected).1 = (s'.get getter a whom' l key expected).1 ∧
      (s.get getter a whom l key expected).2.Alike (s'.get getter a whom' l key expected).2 := by
  unfold Session.get
  rw [h.world]
  exact ⟨rfl, rfl, h.counters⟩

end Session.Alike

/-! ## Registries -/

namespace Registry

/-- Registries that differ in their numbers at most. -/
structure Alike (r r' : Registry σ δ) : Prop where
  category : r.category = r'.category
  preference : r.preference = r'.preference
  adapters : r.adapters = r'.adapters
  kindsByLocale : r.kindsByLocale = r'.kindsByLocale
  available : r.available = r'.available

/-- Two pieces of work with the same answer and alike effects. -/
structure SameWork (x y : β × Registry σ δ × Session σ) : Prop where
  answer : x.1 = y.1
  registry : x.2.1.Alike y.2.1
  session : x.2.2.Alike y.2.2

variable {r r' : Registry σ δ} {s s' : Session σ}

theorem Alike.refl (r : Registry σ δ) : r.Alike r := ⟨rfl, rfl, rfl, rfl, rfl⟩

theorem Alike.symm (h : r.Alike r') : r'.Alike r :=
  ⟨h.category.symm, h.preference.symm, h.adapters.symm, h.kindsByLocale.symm,
    h.available.symm⟩

theorem Alike.trans {r'' : Registry σ δ} (h : r.Alike r') (h' : r'.Alike r'') : r.Alike r'' :=
  ⟨h.category.trans h'.category, h.preference.trans h'.preference,
    h.adapters.trans h'.adapters, h.kindsByLocale.trans h'.kindsByLocale,
    h.available.trans h'.available⟩

theorem alike_reportDegradations (ls : List Locale) (h : s.Alike s') :
    (ls.foldl reportDegradation s).Alike (ls.foldl reportDegradation s') := by
  induction ls generalizing s s' with
  | nil => exact h
  | cons l ls ih =>
    refine ih ?_
    unfold reportDegradation
    split
    · exact (h.say _ _).count _
    · exact h

theorem alike_collectKeys (r r' : Registry σ δ) (es : List (Kind × Adapter σ δ))
    (h : s.Alike s') :
    (r.collectKeys es s).1 = (r'.collectKeys es s').1 ∧
      (r.collectKeys es s).2.Alike (r'.collectKeys es s').2 := by
  induction es generalizing s s' with
  | nil => exact ⟨rfl, h⟩
  | cons e es ih =>
    obtain ⟨k, a⟩ := e
    obtain ⟨hlisted, hlist⟩ := h.list a (r.addressee k a) (r'.addressee k a) .availability
    obtain ⟨hkeys, hmore⟩ := ih (alike_reportDegradations
      (s'.list a (r'.addressee k a) .availability).1 hlist)
    unfold collectKeys
    dsimp only
    rw [hlisted, hkeys]
    exact ⟨rfl, hmore⟩

theorem Alike.availableLocales (h : r.Alike r') (hs : s.Alike s') :
    SameWork (r.availableLocales s) (r'.availableLocales s') := by
  unfold Registry.availableLocales
  rw [h.available]
  cases r'.available with
  | some ls => exact ⟨rfl, h, hs⟩
  | none =>
    obtain ⟨hkeys, hcollect⟩ := alike_collectKeys r r' r'.adapters.entries
      (hs.count .availabilityComputation)
    dsimp only
    rw [h.adapters, hkeys]
    exact ⟨rfl, { h with adapters := rfl, available := rfl }, hcollect.say _ _⟩

theorem Alike.serving (h : r.Alike r') (l : Locale) (ks : List Kind) (hs : s.Alike s') :
    (r.serving l ks s).1 = (r'.serving l ks s').1 ∧
      (r.serving l ks s).2.Alike (r'.serving l ks s').2 := by
  induction ks generalizing s s' with
  | nil => exact ⟨rfl, hs⟩
  | cons k ks ih =>
    have hadapter : r.adapter? k = r'.adapter? k := congrArg (Table.find? · k) h.adapters
    unfold Registry.serving
    rw [hadapter]
    cases r'.adapter? k with
    | none => exact ih hs
    | some a =>
      obtain ⟨hanswer, htest⟩ := hs.test a (r.addressee k a) (r'.addressee k a) l
      obtain ⟨hmore, hrest⟩ := ih htest
      dsimp only
      rw [hanswer, hmore]
      exact ⟨rfl, hrest⟩

theorem Alike.kindsFor (h : r.Alike r') (l : Locale) (hs : s.Alike s') :
    SameWork (r.kindsFor l s) (r'.kindsFor l s') := by
  unfold Registry.kindsFor
  rw [h.kindsByLocale]
  cases r'.kindsByLocale.find? l with
  | some ks => exact ⟨rfl, h, hs.count _⟩
  | none =>
    obtain ⟨hkinds, hserving⟩ := h.serving l r'.preference (hs.count .kindsMiss)
    dsimp only
    rw [h.preference, hkinds]
    exact ⟨rfl, { h with preference := rfl, kindsByLocale := rfl }, hserving⟩

theorem alike_reportMissing (q : Inquiry σ δ α) (k : Kind) (a : Adapter σ δ)
    (h : s.Alike s') : (reportMissing q k a s).Alike (reportMissing q k a s') := by
  unfold reportMissing
  split
  · exact (h.count _).say _ _
  · exact h

theorem Alike.consult (h : r.Alike r') (q : Inquiry σ δ α) (ks : List Kind)
    (hs : s.Alike s') :
    (r.consult q ks s).1 = (r'.consult q ks s').1 ∧
      (r.consult q ks s).2.Alike (r'.consult q ks s').2 := by
  induction ks generalizing s s' with
  | nil => exact ⟨rfl, hs⟩
  | cons k ks ih =>
    have hadapter : r.adapter? k = r'.adapter? k := congrArg (Table.find? · k) h.adapters
    unfold Registry.consult
    rw [hadapter]
    cases r'.adapter? k with
    | none => exact ih hs
    | some a =>
      obtain ⟨hanswer, hget⟩ := hs.get q.getter a (r.addressee k a) (r'.addressee k a)
        q.locale q.key q.expected
      dsimp only
      rw [hanswer]
      split
      · exact ⟨rfl, hget⟩
      · exact ih (alike_reportMissing q k a hget)

theorem Alike.walk (h : r.Alike r') (q : Inquiry σ δ α) (available ds : List Locale)
    (hs : s.Alike s') :
    SameWork (Registry.walk q available ds r s) (Registry.walk q available ds r' s') := by
  induction ds generalizing r r' s s' with
  | nil => exact ⟨rfl, h, hs⟩
  | cons d ds ih =>
    have hexamined := hs.count .candidateExamined
    have hkinds := h.kindsFor d hexamined
    obtain ⟨hanswer, hconsult⟩ := hkinds.registry.consult q
      (r'.kindsFor d (s'.count .candidateExamined)).1 hkinds.session
    unfold Registry.walk
    dsimp only
    rw [hkinds.answer, hanswer]
    split
    · split
      · exact ⟨rfl, hkinds.registry, hconsult⟩
      · exact ih hkinds.registry hconsult
    · exact ih h hexamined

theorem Alike.resolveBuiltin (h : r.Alike r') (q : Inquiry σ δ α) (hs : s.Alike s') :
    SameWork (r.resolveBuiltin q s) (r'.resolveBuiltin q s') := by
  obtain ⟨hanswer, hconsult⟩ := h.consult q [.builtin] (hs.count .fastPath)
  unfold Registry.resolveBuiltin
  dsimp only
  rw [hanswer]
  split
  · exact ⟨rfl, h, hconsult⟩
  · exact ⟨rfl, h, hconsult.count _⟩

theorem Alike.resolveCandidates (h : r.Alike r') (q : Inquiry σ δ α) (hs : s.Alike s') :
    SameWork (r.resolveCandidates q s) (r'.resolveCandidates q s') := by
  have havailable := h.availableLocales (hs.count .fallbackChain)
  have hwalk := havailable.registry.walk q
    (r'.availableLocales (s'.count .fallbackChain)).1 q.locale.candidates havailable.session
  unfold Registry.resolveCandidates
  dsimp only
  rw [havailable.answer, hwalk.answer]
  split
  · exact ⟨rfl, hwalk.registry, hwalk.session⟩
  · exact ⟨rfl, hwalk.registry, (hwalk.session.say _ _).count _⟩

theorem Alike.resolve (h : r.Alike r') (q : Inquiry σ δ α) (hs : s.Alike s') :
    SameWork (r.resolve q s) (r'.resolve q s') := by
  have hexternal : r.hasExternal = r'.hasExternal := by
    simp only [hasExternal, h.adapters]
  unfold Registry.resolve
  rw [hexternal]
  split
  · exact h.resolveCandidates q hs
  · exact h.resolveBuiltin q hs

theorem Alike.supports (h : r.Alike r') (k : Kind) (l : Locale) (hs : s.Alike s') :
    SameWork (r.supports k l s) (r'.supports k l s') := by
  have hadapter : r.adapter? k = r'.adapter? k := congrArg (Table.find? · k) h.adapters
  unfold Registry.supports
  rw [hadapter]
  cases r'.adapter? k with
  | none => exact ⟨rfl, h, hs⟩
  | some a =>
    obtain ⟨hanswer, htest⟩ := hs.test a (r.addressee k a) (r'.addressee k a) l
    exact ⟨congrArg some hanswer, h, htest⟩

end Registry

/-! ## Requests for a registry -/

/-- A source whose answers about adapters leave the world as it is. -/
structure Source.LeavesWorld (src : Source σ δ) : Prop where
  preference : ∀ w, (src.preference w).2 = w
  adapterFor : ∀ k c w, (src.adapterFor k c w).2 = w

namespace Pool

variable {p q : Pool src} {c : Category}

theorem askAdapters_alike (hp : p.callbacks = 0) (hq : q.callbacks = 0)
    (hw : p.session.world = q.session.world) (again : Category → Pool src → Pool src)
    (c : Category) (ks : List Kind) (found : Table Kind (Adapter σ δ)) :
    (p.askAdapters again c ks found).1 = (q.askAdapters again c ks found).1 ∧
      (p.askAdapters again c ks found).2.session.world =
        (q.askAdapters again c ks found).2.session.world := by
  induction ks generalizing found p q with
  | nil => exact ⟨rfl, hw⟩
  | cons k ks ih =>
    rw [askAdapters_cons, askAdapters_cons, askAdapter_of_settled hp,
      askAdapter_of_settled hq, hw]
    exact ih (p := p.noting _ [] [.adapterFor k c]) (q := q.noting _ [] [.adapterFor k c])
      hp hq rfl _

theorem made_alike (hp : p.callbacks = 0) (hq : q.callbacks = 0)
    (hw : p.session.world = q.session.world) (again : Category → Pool src → Pool src)
    (c : Category) :
    (p.made again c).Alike (q.made again c) ∧
      (p.answered again c).2.session.world = (q.answered again c).2.session.world := by
  have hranking : p.ranking = q.ranking := by unfold ranking; rw [hw]
  have hopened : (p.opened c).session.world = (q.opened c).session.world :=
    congrArg (fun w => (src.preference w).2) hw
  have hanswered : (p.answered again c).1 = (q.answered again c).1 ∧
      (p.answered again c).2.session.world = (q.answered again c).2.session.world := by
    unfold answered reentered
    dsimp only
    rw [if_pos hp, if_pos hq, hopened, hranking]
    exact askAdapters_alike (p := (p.opened c).noting _ [] [])
      (q := (q.opened c).noting _ [] []) hp hq rfl again c _ _
  exact ⟨⟨rfl, hranking, hanswered.1, rfl, rfl⟩, hanswered.2⟩

theorem registry_of_settled (hp : p.callbacks = 0) (hc : p.registries.find? c = none) :
    let again := fun c (q : Pool src) => (q.registry c).2
    (p.registry c).1 = p.made again c ∧
      (p.registry c).2.session.world = (p.answered again c).2.session.world := by
  intro again
  have hkeep := keep_of_none (p := (p.make again c).2) (c := c) (r := (p.make again c).1)
  have hsame : (p.make again c).2.registries.find? c = p.registries.find? c := by
    have hreentered : p.reentered again c = p.opened c := if_pos hp
    obtain ⟨w, hmake⟩ := make_of_settled again ((congrArg callbacks hreentered).trans hp)
    rw [hmake, hreentered]
    rfl
  rw [registry_of_none hc]
  dsimp only
  rw [hkeep (hsame.trans hc), make_eq]
  exact ⟨rfl, rfl⟩

/-- Nobody calls back: what is constructed depends on the world alone. -/
theorem alike_registry_of_settled (hp : p.callbacks = 0) (hq : q.callbacks = 0)
    (hw : p.session.world = q.session.world) (hc : p.registries.find? c = none)
    (hc' : q.registries.find? c = none) :
    (p.registry c).1.Alike (q.registry c).1 ∧
      (p.registry c).2.session.world = (q.registry c).2.session.world := by
  obtain ⟨hregistry, hworld⟩ := registry_of_settled hp hc
  obtain ⟨hregistry', hworld'⟩ := registry_of_settled hq hc'
  obtain ⟨hmade, hanswered⟩ := made_alike hp hq hw (fun c q => (q.registry c).2) c
  rw [hregistry, hregistry', hworld, hworld']
  exact ⟨hmade, hanswered⟩

theorem world_of_builds (h : src.LeavesWorld) (hb : p.Builds q) :
    q.session.world = p.session.world := by
  refine hb.invariant (I := fun q => q.session.world = p.session.world)
    (fun hs hq => Eq.trans ?_ hq) rfl
  cases hs with
  | start | request | callBack | say | keep => rfl
  | preference => exact h.preference _
  | answer k c => exact h.adapterFor k c _

/-- The pool whose source calls back no more. -/
def settled (p : Pool src) : Pool src := { p with callbacks := 0 }

/-- Questions leave the world as it is: it makes no difference how often the source calls
    back. -/
theorem alike_registry_settled (h : src.LeavesWorld) (hc : p.registries.find? c = none) :
    (p.registry c).1.Alike (p.settled.registry c).1 := by
  generalize hn : p.callbacks = n
  induction n generalizing p with
  | zero => exact (alike_registry_of_settled (q := p.settled) hn rfl rfl hc hc).1
  | succ n ih =>
    have hinner := ih (p := p.reentry c) hc (by simp only [reentry, hn, Nat.add_sub_cancel])
    have houter := alike_registry_of_settled (p := (p.reentry c).settled) (q := p.settled)
      rfl rfl (h.preference p.session.world) hc hc
    rw [registry_of_callBack (hn ▸ Nat.succ_ne_zero n) hc]
    exact hinner.trans houter.1

theorem alike_registry_of_leavesWorld (h : src.LeavesWorld)
    (hw : p.session.world = q.session.world) (hc : p.registries.find? c = none)
    (hc' : q.registries.find? c = none) :
    (p.registry c).1.Alike (q.registry c).1 ∧
      (p.registry c).2.session.world = (q.registry c).2.session.world := by
  have hsettled := alike_registry_of_settled (p := p.settled) (q := q.settled) rfl rfl hw hc hc'
  refine ⟨(alike_registry_settled h hc).trans
    (hsettled.1.trans (alike_registry_settled h hc').symm), ?_⟩
  rw [world_of_builds h (builds_registry c p), world_of_builds h (builds_registry c q), hw]

/-! ## Pools -/

/-- Pools that answer alike: registries that differ in their numbers at most, and nothing that
    tells the source apart. -/
structure Alike (p q : Pool src) : Prop where
  registries : ∀ c, Option.Rel Registry.Alike (p.registries.find? c) (q.registries.find? c)
  allAvailable : p.allAvailable = q.allAvailable
  session : p.session.Alike q.session
  asking : src.LeavesWorld ∨ p.callbacks = 0 ∧ q.callbacks = 0

theorem alike_stored (stored : Option (Registry σ δ)) :
    Option.Rel Registry.Alike stored stored := by
  cases stored with
  | none => exact .none
  | some r => exact .some (.refl r)

theorem alike_self (hp : p.callbacks = 0) : p.Alike p :=
  ⟨fun _ => alike_stored _, rfl, .refl _, Or.inr ⟨hp, hp⟩⟩

theorem Alike.registry (h : p.Alike q) (c : Category) :
    (p.registry c).1.Alike (q.registry c).1 ∧ (p.registry c).2.Alike (q.registry c).2 := by
  have hstored := h.registries c
  generalize hp : p.registries.find? c = stored at hstored
  generalize hq : q.registries.find? c = stored' at hstored
  cases hstored with
  | some hr =>
    rw [registry_of_find? hp, registry_of_find? hq]
    exact ⟨hr, h⟩
  | none =>
    obtain ⟨hkept, hworld⟩ : (p.registry c).1.Alike (q.registry c).1 ∧
        (p.registry c).2.session.world = (q.registry c).2.session.world :=
      h.asking.elim
        (fun hsrc => alike_registry_of_leavesWorld hsrc h.session.world hp hq)
        (fun ⟨hp', hq'⟩ => alike_registry_of_settled hp' hq' h.session.world hp hq)
    obtain ⟨_, hmade⟩ := constructs_registry hp
    obtain ⟨_, hmade'⟩ := constructs_registry hq
    refine ⟨hkept, fun c' => ?_, ?_, ⟨hworld, ?_⟩, Or.inr ⟨hmade.callbacks_eq, hmade'.callbacks_eq⟩⟩
    · rw [hmade.find?_eq, hmade'.find?_eq]
      split
      · exact .some hkept
      · exact h.registries c'
    · rw [hmade.allAvailable_eq, hmade'.allAvailable_eq, h.allAvailable]
    · exact hmade.counters_eq.trans (h.session.counters.trans hmade'.counters_eq.symm)

/-! ## Requests -/

theorem Alike.onRegistry (h : p.Alike q) (c : Category)
    {work : Registry σ δ → Session σ → β × Registry σ δ × Session σ}
    (hwork : ∀ {r r' : Registry σ δ} {s s' : Session σ}, r.Alike r' → s.Alike s' →
      Registry.SameWork (work r s) (work r' s')) :
    (p.onRegistry c work).1 = (q.onRegistry c work).1 ∧
      (p.onRegistry c work).2.Alike (q.onRegistry c work).2 := by
  obtain ⟨hregistry, hpool⟩ := h.registry c
  have hdone := hwork hregistry hpool.session
  refine ⟨hdone.answer, fun c' => ?_, hpool.allAvailable, hdone.session, hpool.asking⟩
  simp only [Pool.onRegistry, Table.find?_insert]
  split
  · exact .some hdone.registry
  · exact hpool.registries c'

theorem Alike.availableLocales (h : p.Alike q) (c : Category) :
    (p.availableLocales c).1 = (q.availableLocales c).1 ∧
      (p.availableLocales c).2.Alike (q.availableLocales c).2 :=
  h.onRegistry c fun hr hs => hr.availableLocales hs

theorem Alike.gatherAvailable (h : p.Alike q) (cs : List Category) :
    (p.gatherAvailable cs).1 = (q.gatherAvailable cs).1 ∧
      (p.gatherAvailable cs).2.Alike (q.gatherAvailable cs).2 := by
  induction cs generalizing p q with
  | nil => exact ⟨rfl, h⟩
  | cons c cs ih =>
    obtain ⟨hhere, hpool⟩ := h.availableLocales c
    obtain ⟨hmore, hrest⟩ := ih hpool
    simp only [Pool.gatherAvailable]
    rw [hhere, hmore]
    exact ⟨rfl, hrest⟩

/-- What was gathered is put in order and kept. -/
def united (gathered : List Locale × Pool src) : List Locale × Pool src :=
  let locales := Ascending.ofList gathered.1
  (locales, { gathered.2 with allAvailable := some locales }.say
    (.allAvailableComputed locales.length))

theorem allAvailableLocales_of_none (h : p.allAvailable = none) :
    p.allAvailableLocales = united (p.gatherAvailable Category.all) := by
  unfold allAvailableLocales
  rw [h]
  rfl

theorem Alike.united (h : p.Alike q) (ls : List Locale) :
    (Pool.united (ls, p)).2.Alike (Pool.united (ls, q)).2 :=
  ⟨h.registries, rfl, h.session.say _ _, h.asking⟩

theorem Alike.allAvailableLocales (h : p.Alike q) :
    p.allAvailableLocales.1 = q.allAvailableLocales.1 ∧
      p.allAvailableLocales.2.Alike q.allAvailableLocales.2 := by
  cases hq : q.allAvailable with
  | some ls =>
    have hp : p.allAvailable = some ls := h.allAvailable.trans hq
    simp only [Pool.allAvailableLocales, hp, hq]
    exact ⟨trivial, h⟩
  | none =>
    obtain ⟨hlocales, hpool⟩ := h.gatherAvailable Category.all
    rw [allAvailableLocales_of_none (h.allAvailable.trans hq), allAvailableLocales_of_none hq]
    generalize p.gatherAvailable Category.all = gathered at hlocales hpool ⊢
    generalize q.gatherAvailable Category.all = gathered' at hlocales hpool ⊢
    obtain ⟨ls, p⟩ := gathered
    obtain ⟨ls', q⟩ := gathered'
    cases hlocales
    exact ⟨rfl, hpool.united ls⟩

theorem Alike.resolve (h : p.Alike q) (c : Category) (locale : Option Locale)
    (key : Option String) (expected : Expectation) (getter : Getter σ δ α) :
    (p.resolve c locale key expected getter).1 = (q.resolve c locale key expected getter).1 ∧
      (p.resolve c locale key expected getter).2.Alike
        (q.resolve c locale key expected getter).2 := by
  cases locale with
  | none => exact ⟨rfl, h⟩
  | some l =>
    obtain ⟨hanswer, hpool⟩ := h.onRegistry c fun hr hs =>
      hr.resolve ⟨l, key, expected, getter⟩ hs
    exact ⟨congrArg Except.ok hanswer, hpool⟩

end Pool

/-- Replies that differ in the numbers of registries at most. -/
inductive Reply.Alike : Reply σ δ α → Reply σ δ α → Prop
  | same (x : Reply σ δ α) : Alike x x
  | registry {r r' : Registry σ δ} (h : r.Alike r') : Alike (.registry r) (.registry r')

namespace Pool

variable {p q : Pool src}

/-- Alike pools answer a request alike and stay alike. -/
theorem Alike.perform (h : p.Alike q) (request : Request σ δ α) :
    (p.perform request).1.Alike (q.perform request).1 ∧
      (p.perform request).2.Alike (q.perform request).2 := by
  have hsame : ∀ {x y : Reply σ δ α}, x = y → x.Alike y := fun he => he ▸ .same _
  cases request with
  | resolve c l key expected getter =>
    obtain ⟨hanswer, hpool⟩ := h.resolve c l key expected getter
    exact ⟨hsame (congrArg Reply.resolution hanswer), hpool⟩
  | localizedObject c l getter =>
    obtain ⟨hanswer, hpool⟩ := h.resolve c (some l) none .object getter
    exact ⟨hsame (congrArg Reply.resolution hanswer), hpool⟩
  | localizedName c l key getter =>
    obtain ⟨hanswer, hpool⟩ := h.resolve c (some l) (some key) .name getter
    exact ⟨hsame (congrArg Reply.resolution hanswer), hpool⟩
  | available c =>
    obtain ⟨hanswer, hpool⟩ := h.availableLocales c
    exact ⟨hsame (congrArg Reply.locales hanswer), hpool⟩
  | allAvailable =>
    obtain ⟨hanswer, hpool⟩ := h.allAvailableLocales
    exact ⟨hsame (congrArg Reply.locales hanswer), hpool⟩
  | registry c =>
    obtain ⟨hanswer, hpool⟩ := h.registry c
    exact ⟨.registry hanswer, hpool⟩
  | kinds c l =>
    obtain ⟨hanswer, hpool⟩ := h.onRegistry c fun hr hs => hr.kindsFor l hs
    exact ⟨hsame (congrArg Reply.kinds hanswer), hpool⟩
  | supports c k l =>
    obtain ⟨hanswer, hpool⟩ := h.onRegistry c fun hr hs => hr.supports k l hs
    exact ⟨hsame (congrArg Reply.support hanswer), hpool⟩

/-- Alike pools answer any requests alike and stay alike. -/
theorem Alike.run (h : p.Alike q) (requests : List (Request σ δ α)) :
    List.Forall₂ Reply.Alike (p.run requests).1 (q.run requests).1 ∧
      (p.run requests).2.Alike (q.run requests).2 := by
  induction requests generalizing p q with
  | nil => exact ⟨.nil, h⟩
  | cons request requests ih =>
    obtain ⟨hreply, hpool⟩ := h.perform request
    obtain ⟨hreplies, hrest⟩ := ih hpool
    exact ⟨.cons hreply hreplies, hrest⟩

end Pool

end LocaleServices

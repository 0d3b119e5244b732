import LocaleServices.Proofs.Service.Effects
import LocaleServices.Service.Request

/-!
  What a pool does to make a registry.

  `Pool.Builds` lists the single steps: numbers are handed out, the source is asked and may
  call back, messages are left, and a new registry is kept where there was none. Asking for
  the registry of a category is a row of such steps, however deep the source calls back, and
  ends with the registry in its place (`builds_registry`, `find?_registry`). A new registry
  holds answers of the source and nothing remembered (`Registry.IsNew`).
-/

namespace LocaleServices

variable {σ δ : Type}

/-! ## New registries -/

namespace Registry

/-- A registry of a category whose roster the source offered. -/
structure MadeFor (src : Source σ δ) (c : Category) (r : Registry σ δ) : Prop where
  category : r.category = c
  offers : src.Offers c r.roster
  distinct : r.adapters.keys.Nodup

/-- A registry that has not found out anything yet. -/
structure IsNew (src : Source σ δ) (c : Category) (r : Registry σ δ) : Prop
    extends MadeFor src c r where
  kindsByLocale : r.kindsByLocale = .empty
  available : r.available = none

end Registry

namespace Pool

variable {src : Source σ δ}

/-- The kinds that are asked for are distinct. -/
theorem nodup_askedKinds (preference : List Kind) : (askedKinds preference).Nodup :=
  Kind.nodup_all.filter _

theorem mem_askedKinds {preference : List Kind} {k : Kind} :
    k ∈ askedKinds preference ↔ k ∈ preference := by
  simp [askedKinds, Kind.mem_all]

theorem askAdapters_cons (again : Category → Pool src → Pool src) (c : Category) (k : Kind)
    (ks : List Kind) (found : Table Kind (Adapter σ δ)) (p : Pool src) :
    p.askAdapters again c (k :: ks) found =
      (p.askAdapter again k c).2.askAdapters again c ks
        (match (p.askAdapter again k c).1 with
          | none => found
          | some a => found.insert k a) := by
  simp only [askAdapters]
  split <;> simp_all

/-- Kinds that are not asked for keep what was found before. -/
theorem find?_askAdapters_of_notMem (again : Category → Pool src → Pool src) (c : Category)
    {k : Kind} {ks : List Kind} (hk : k ∉ ks) (found : Table Kind (Adapter σ δ))
    (p : Pool src) : (p.askAdapters again c ks found).1.find? k = found.find? k := by
  induction ks generalizing found p with
  | nil => rfl
  | cons k' ks ih =>
    obtain ⟨hne, hks⟩ := not_or.mp (mt List.mem_cons.mpr hk)
    rw [askAdapters_cons, ih hks]
    split
    · rfl
    · exact Table.find?_insert_of_ne found _ (Ne.symm hne)

/-- A kind that is asked for has the source's answer. -/
theorem find?_askAdapters_of_mem (again : Category → Pool src → Pool src) (c : Category)
    {k : Kind} {ks : List Kind} (hks : ks.Nodup) (hk : k ∈ ks)
    {found : Table Kind (Adapter σ δ)} (hf : found.find? k = none) (p : Pool src) :
    ∃ w, (p.askAdapters again c ks found).1.find? k = (src.adapterFor k c w).1 := by
  induction ks generalizing found p with
  | nil => cases hk
  | cons k' ks ih =>
    obtain ⟨hk', hks⟩ := List.nodup_cons.mp hks
    rw [askAdapters_cons]
    by_cases he : k = k'
    · subst he
      rw [find?_askAdapters_of_notMem again c hk']
      refine ⟨_, Eq.trans ?_ (show (p.askAdapter again k c).1 = _ from rfl)⟩
      cases (p.askAdapter again k c).1 with
      | none => exact hf
      | some a => exact Table.find?_insert_self found k a
    · refine ih hks ((List.mem_cons.mp hk).resolve_left he) ?_ _
      split
      · exact hf
      · rw [Table.find?_insert_of_ne found _ (Ne.symm he)]
        exact hf

theorem nodup_keys_askAdapters (again : Category → Pool src → Pool src) (c : Category)
    (ks : List Kind) (found : Table Kind (Adapter σ δ)) (hf : found.keys.Nodup)
    (p : Pool src) : (p.askAdapters again c ks found).1.keys.Nodup := by
  induction ks generalizing found p with
  | nil => exact hf
  | cons k ks ih =>
    rw [askAdapters_cons]
    refine ih _ ?_ _
    split
    · exact hf
    · exact Table.nodup_keys_insert hf k _

/-- What is made is new, whatever a callback does. -/
theorem isNew_make (again : Category → Pool src → Pool src) (c : Category) (p : Pool src) :
    (p.make again c).1.IsNew src c where
  category := rfl
  offers :=
    { preference := ⟨p.session.world, rfl⟩
      asked := fun _ hk =>
        find?_askAdapters_of_mem again c (nodup_askedKinds _) (mem_askedKinds.mpr hk) rfl _
      unasked := fun _ hk =>
        find?_askAdapters_of_notMem again c (fun h => hk (mem_askedKinds.mp h)) .empty _ }
  distinct := nodup_keys_askAdapters again c _ .empty List.nodup_nil _
  kindsByLocale := rfl
  available := rfl

/-! ## Steps -/

/-- One step of a pool that makes a registry. -/
inductive BuildStep : Pool src → Pool src → Prop
  | start (p : Pool src) : BuildStep p { p with started := p.started + 1 }
  | preference (p : Pool src) : BuildStep p p.askPreference.2
  | request (k : Kind) (c : Category) (p : Pool src) :
      BuildStep p { p with session := p.session.after (.adapterFor k c) p.session.world }
  | callBack (p : Pool src) : BuildStep p { p with callbacks := p.callbacks - 1 }
  | answer (k : Kind) (c : Category) (p : Pool src) :
      BuildStep p { p with session :=
        { p.session with world := (src.adapterFor k c p.session.world).2 } }
  | say (m : Message) (p : Pool src) : BuildStep p (p.say m)
  | keep (c : Category) (r : Registry σ δ) (p : Pool src) (hr : r.IsNew src c)
      (hp : p.registries.find? c = none) :
      BuildStep p { p with registries := p.registries.insert c r }

/-- Any number of such steps. -/
def Builds : Pool src → Pool src → Prop := Relation.ReflTransGen BuildStep

/-- What is kept from each step to the next is kept by all of them. -/
theorem Builds.invariant {I : Pool src → Prop} (step : ∀ {p p'}, BuildStep p p' → I p → I p')
    {p p' : Pool src} (h : p.Builds p') (hp : I p) : I p' := by
  induction h with
  | refl => exact hp
  | tail _ hs ih => exact step hs ih

theorem builds_askAdapter {again : Category → Pool src → Pool src}
    (h : ∀ c p, Builds p (again c p)) (k : Kind) (c : Category) (p : Pool src) :
    p.Builds (p.askAdapter again k c).2 := by
  have hcall : ∀ p : Pool src, p.Builds (p.callBack again c) := by
    intro p
    unfold Pool.callBack
    split
    · exact .refl
    · exact Relation.ReflTransGen.trans (.single (.callBack p)) (h c _)
  exact Relation.ReflTransGen.trans (.single (.request k c p))
    ((hcall _).trans (.single (.answer k c _)))

theorem builds_askAdapters {again : Category → Pool src → Pool src}
    (h : ∀ c p, Builds p (again c p)) (c : Category) (ks : List Kind)
    (found : Table Kind (Adapter σ δ)) (p : Pool src) :
    p.Builds (p.askAdapters again c ks found).2 := by
  induction ks generalizing found p with
  | nil => exact .refl
  | cons k ks ih =>
    rw [askAdapters_cons]
    exact (builds_askAdapter h k c p).trans (ih _ _)

theorem builds_make {again : Category → Pool src → Pool src}
    (h : ∀ c p, Builds p (again c p)) (c : Category) (p : Pool src) :
    p.Builds (p.make again c).2 := by
  unfold make
  dsimp only
  generalize hn : ({ p with started := p.started + 1 } : Pool src).askPreference = named
  have hnamed : p.Builds named.2 := by
    rw [← hn]
    exact Relation.ReflTransGen.trans (.single (.start p)) (.single (.preference _))
  have hask := builds_askAdapters h c (askedKinds (Preference.complete named.1)) .empty named.2
  generalize named.2.askAdapters again c (askedKinds (Preference.complete named.1)) .empty =
    answer at hask ⊢
  refine (hnamed.trans hask).trans ?_
  split
  · exact .single (.say _ _)
  · exact Relation.ReflTransGen.trans (.single (.say (.noBuiltin c) _)) (.single (.say _ _))

theorem builds_keep {c : Category} {r : Registry σ δ} (hr : r.IsNew src c) (p : Pool src) :
    p.Builds (p.keep c r).2 := by
  unfold keep
  split
  · exact .single (.say _ p)
  · rename_i hp
    exact .single (.keep c r p hr hp)

theorem find?_keep (c : Category) (r : Registry σ δ) (p : Pool src) :
    (p.keep c r).2.registries.find? c = some (p.keep c r).1 := by
  unfold keep
  split
  · rename_i kept hkept
    exact hkept
  · exact Table.find?_insert_self p.registries c r

/-- With callbacks `n` deep, the registry comes about by single steps. -/
theorem builds_registryWithin (n : Nat) (c : Category) (p : Pool src) :
    p.Builds (registryWithin n c p).2 := by
  -- On the depth, for all pools: a callback asks for a registry of the pool as it is by then.
  induction n generalizing c p with
  | zero =>
    unfold registryWithin
    split
    · exact .refl
    · exact (builds_make (fun _ _ => .refl) c p).trans (builds_keep (isNew_make _ c p) _)
  | succ n ih =>
    unfold registryWithin
    split
    · exact .refl
    · exact (builds_make ih c p).trans (builds_keep (isNew_make _ c p) _)

theorem builds_registry (c : Category) (p : Pool src) : p.Builds (p.registry c).2 :=
  builds_registryWithin p.callbacks c p

/-- A registry that is there is handed out. -/
theorem registryWithin_of_find? {c : Category} {p : Pool src} {r : Registry σ δ}
    (h : p.registries.find? c = some r) (n : Nat) : registryWithin n c p = (r, p) := by
  unfold registryWithin
  simp only [h]

theorem registry_of_find? {c : Category} {p : Pool src} {r : Registry σ δ}
    (h : p.registries.find? c = some r) : p.registry c = (r, p) :=
  registryWithin_of_find? h p.callbacks

/-- Afterwards the category has the registry that was handed out. -/
theorem find?_registry (c : Category) (p : Pool src) :
    (p.registry c).2.registries.find? c = some (p.registry c).1 := by
  unfold registry registryWithin
  split
  · rename_i r hr
    exact hr
  · exact find?_keep c _ _

/-- Making registries counts nothing. -/
theorem BuildStep.counters_eq {p p' : Pool src} (h : BuildStep p p') :
    p'.session.counters = p.session.counters := by
  cases h <;> rfl

theorem Builds.counters_eq {p p' : Pool src} (h : p.Builds p') :
    p'.session.counters = p.session.counters :=
  h.invariant (I := fun q => q.session.counters = p.session.counters)
    (fun hs hq => hs.counters_eq.trans hq) rfl

/-- Making registries asks nobody for data. -/
theorem Builds.quiet {p p' : Pool src} (h : p.Builds p') : p.session.Quiet src p'.session := by
  refine h.invariant (I := fun q => p.session.Quiet src q.session) (fun hs hq => hq.trans ?_)
    (.refl src p.session)
  cases hs with
  | start | callBack | keep => exact .refl src _
  | preference p => exact Session.quiet_after (.single (.preference _)) rfl
  | request k c p => exact Session.quiet_after .refl rfl
  | answer k c p => exact ⟨.single (.adapterFor k c _), rfl⟩
  | say m p => exact Session.quiet_say src _ m

end Pool

end LocaleServices

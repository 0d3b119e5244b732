import LocaleServices.Service.Pool

/-!
  Rosters: what is registered for a category, without the memory of a registry.

  A roster is a ranking of kinds with their adapters. `eligible` lists, for a requested
  locale, the adapters that a request may reach, in the order in which it reaches them: the
  built-in one when it is alone, and otherwise, candidate by candidate, those that serve a
  candidate which is the root or the key of a listed locale. `Source.Offers` says that a
  roster is made of answers of a source; of a source that always answers the same there is
  one roster for each category (`Source.Offers.eq_rosterIn`).
-/

namespace LocaleServices

variable {σ δ : Type}

/-! ## Adapters -/

namespace Adapter

/-- Whether an adapter serves a locale, when it is asked in a world. -/
def serves (a : Adapter σ δ) (w : σ) (l : Locale) : Bool :=
  match a.support with
  | .own test => (test l w).1
  | .derived => l.isCoveredBy (a.listing w).1

/-- An adapter that always serves the root. -/
def ServesRoot (a : Adapter σ δ) : Prop := ∀ w, a.serves w .root = true

/-- An adapter whose list and support test are the same in every world. -/
structure IsSteady (a : Adapter σ δ) : Prop where
  listing : ∀ w v, (a.listing w).1 = (a.listing v).1
  serves : ∀ w v l, a.serves w l = a.serves v l

end Adapter

/-! ## Rosters -/

/-- Kinds in order of preference, and the adapters of those that have one. -/
@[ext] structure Roster (σ δ : Type) where
  preference : List Kind
  adapter? : Kind → Option (Adapter σ δ)

namespace Roster

/-- Those of some kinds that have an adapter, with it. -/
def among (u : Roster σ δ) (ks : List Kind) : List (Kind × Adapter σ δ) :=
  ks.filterMap fun k => (u.adapter? k).map fun a => (k, a)

/-- The registered adapters in order of preference. -/
def entries (u : Roster σ δ) : List (Kind × Adapter σ δ) := u.among u.preference

/-- Whether there is nothing but a built-in adapter. -/
def isBuiltinAlone (u : Roster σ δ) : Bool := u.entries.map Prod.fst = [.builtin]

/-- The registered adapters that serve a locale, in order of preference. -/
def serving (u : Roster σ δ) (w : σ) (l : Locale) : List (Kind × Adapter σ δ) :=
  u.entries.filter fun e => e.2.serves w l

/-- Whether a locale is the key of one that a registered adapter lists. -/
def lists (u : Roster σ δ) (w : σ) (d : Locale) : Bool :=
  u.entries.any fun e => (e.2.listing w).1.any fun m => m.availabilityKey = d

/-- Whether adapters are asked on behalf of a candidate. -/
def admits (u : Roster σ δ) (w : σ) (d : Locale) : Bool := d = .root || u.lists w d

/-- The adapters that a request for a locale may reach, in order. -/
def eligible (u : Roster σ δ) (w : σ) (l : Locale) : List (Kind × Adapter σ δ) :=
  if u.isBuiltinAlone then u.entries
  else (l.candidates.filter (u.admits w)).flatMap (u.serving w)

/-- A roster with the adapters of another one and with further ones, all of a sort. -/
structure Pads (u' u : Roster σ δ) (P : Adapter σ δ → Prop) : Prop where
  kept : ∀ e ∈ u.entries, e ∈ u'.entries
  added : ∀ e ∈ u'.entries, e ∈ u.entries ∨ P e.2

/-! ### Laws -/

theorem mem_among {u : Roster σ δ} {ks : List Kind} {k : Kind} {a : Adapter σ δ} :
    (k, a) ∈ u.among ks ↔ k ∈ ks ∧ u.adapter? k = some a := by
  simp only [among, List.mem_filterMap, Option.map_eq_some_iff, Prod.mk.injEq]
  constructor
  · rintro ⟨k', hk, a', ha, rfl, rfl⟩
    exact ⟨hk, ha⟩
  · rintro ⟨hk, ha⟩
    exact ⟨k, hk, a, ha, rfl, rfl⟩

theorem among_cons_of_none {u : Roster σ δ} {k : Kind} (h : u.adapter? k = none)
    (ks : List Kind) : u.among (k :: ks) = u.among ks := by
  simp only [among, List.filterMap_cons, h, Option.map_none]

theorem among_cons_of_some {u : Roster σ δ} {k : Kind} {a : Adapter σ δ}
    (h : u.adapter? k = some a) (ks : List Kind) : u.among (k :: ks) = (k, a) :: u.among ks := by
  simp only [among, List.filterMap_cons, h, Option.map_some]

/-- The kinds of a list that have an adapter. -/
theorem map_fst_among (u : Roster σ δ) (ks : List Kind) :
    (u.among ks).map Prod.fst = ks.filter fun k => (u.adapter? k).isSome := by
  induction ks with
  | nil => rfl
  | cons k ks ih =>
    rw [List.filter_cons]
    cases ha : u.adapter? k with
    | none => simpa [among_cons_of_none ha] using ih
    | some a => simpa [among_cons_of_some ha] using ih

/-- Each kind of a list has at most one entry. -/
theorem nodup_among {u : Roster σ δ} {ks : List Kind} (h : ks.Nodup) :
    ((u.among ks).map Prod.fst).Nodup := by
  rw [map_fst_among]
  exact h.filter _

theorem adapter?_of_mem_entries {u : Roster σ δ} {e : Kind × Adapter σ δ}
    (h : e ∈ u.entries) : u.adapter? e.1 = some e.2 :=
  (mem_among.mp h).2

theorem mem_entries_of_mem_serving {u : Roster σ δ} {w : σ} {l : Locale}
    {e : Kind × Adapter σ δ} (h : e ∈ u.serving w l) : e ∈ u.entries :=
  (List.mem_filter.mp h).1

theorem lists_iff {u : Roster σ δ} {w : σ} {d : Locale} :
    u.lists w d = true ↔
      ∃ e ∈ u.entries, ∃ m ∈ (e.2.listing w).1, m.availabilityKey = d := by
  simp [lists]

theorem mem_eligible {u : Roster σ δ} {w : σ} {l : Locale} {e : Kind × Adapter σ δ}
    (h : e ∈ u.eligible w l) : e ∈ u.entries := by
  unfold eligible at h
  split at h
  · exact h
  · obtain ⟨_, _, he⟩ := List.mem_flatMap.mp h
    exact mem_entries_of_mem_serving he

end Roster

/-! ## What a source offers -/

namespace Source

variable {src : Source σ δ} {c : Category} {u : Roster σ δ}

/-- Whether the source can ever answer with an adapter. -/
def HandsOut (src : Source σ δ) (a : Adapter σ δ) : Prop :=
  ∃ k c w, (src.adapterFor k c w).1 = some a

/-- A source all of whose adapters are steady. -/
def IsSteady (src : Source σ δ) : Prop := ∀ a, src.HandsOut a → a.IsSteady

/-- Whether a roster is made of answers of the source for a category. -/
structure Offers (src : Source σ δ) (c : Category) (u : Roster σ δ) : Prop where
  preference : ∃ w, u.preference = Preference.complete (src.preference w).1
  asked : ∀ k ∈ u.preference, ∃ w, u.adapter? k = (src.adapterFor k c w).1
  unasked : ∀ k, k ∉ u.preference → u.adapter? k = none

/-- A source that always gives the same answers. -/
structure IsFixed (src : Source σ δ) : Prop where
  preference : ∀ w v, (src.preference w).1 = (src.preference v).1
  adapterFor : ∀ k c w v, (src.adapterFor k c w).1 = (src.adapterFor k c v).1

/-- The roster that the source's answers in one world make. -/
def rosterIn (src : Source σ δ) (w : σ) (c : Category) : Roster σ δ where
  preference := Preference.complete (src.preference w).1
  adapter? := fun k =>
    if k ∈ Preference.complete (src.preference w).1 then (src.adapterFor k c w).1 else none

/-- A source that always answers the same has one roster for each category. -/
theorem Offers.eq_rosterIn (h : src.Offers c u) (hf : src.IsFixed) (w : σ) :
    u = src.rosterIn w c := by
  obtain ⟨v, hv⟩ := h.preference
  rw [hf.preference v w] at hv
  have ha : u.adapter? = (src.rosterIn w c).adapter? := by
    funext k
    by_cases hk : k ∈ u.preference
    · obtain ⟨v', hv'⟩ := h.asked k hk
      rw [hv', hf.adapterFor k c v' w]
      simp only [rosterIn, if_pos (hv ▸ hk)]
    · rw [h.unasked k hk]
      simp only [rosterIn, if_neg (hv ▸ hk)]
  exact Roster.ext hv ha

/-- Every adapter of an offered roster has its place in the ranking. -/
theorem Offers.mem_entries_iff (h : src.Offers c u) {k : Kind} {a : Adapter σ δ} :
    (k, a) ∈ u.entries ↔ u.adapter? k = some a := by
  rw [Roster.entries, Roster.mem_among]
  refine ⟨And.right, fun ha => ⟨?_, ha⟩⟩
  refine Classical.not_not.mp fun hk => ?_
  rw [h.unasked k hk] at ha
  cases ha

theorem Offers.nodup_kinds (h : src.Offers c u) : (u.entries.map Prod.fst).Nodup := by
  obtain ⟨w, hw⟩ := h.preference
  exact Roster.nodup_among (hw ▸ Preference.nodup_complete _)

theorem Offers.handsOut (h : src.Offers c u) {e : Kind × Adapter σ δ} (he : e ∈ u.entries) :
    src.HandsOut e.2 := by
  obtain ⟨hk, ha⟩ := Roster.mem_among.mp he
  obtain ⟨w, hw⟩ := h.asked e.1 hk
  exact ⟨e.1, c, w, hw.symm.trans ha⟩

theorem Offers.steady (h : src.Offers c u) (hs : src.IsSteady) {e : Kind × Adapter σ δ}
    (he : e ∈ u.entries) : e.2.IsSteady :=
  hs e.2 (h.handsOut he)

end Source

/-- The roster of a registry. -/
def Registry.roster (r : Registry σ δ) : Roster σ δ := ⟨r.preference, r.adapter?⟩

end LocaleServices

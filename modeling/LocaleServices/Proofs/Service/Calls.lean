import LocaleServices.Service.Registry

/-!
  What the questions of a registry leave in the record.

  Finding out which kinds serve a locale records tests of support and counts nothing
  (`Session.Testing`, `testing_serving`). Collecting keys records one listing for each adapter,
  in order, and counts nothing but normalizations (`calls_collectKeys`,
  `counters_collectKeys`).
-/

namespace LocaleServices

variable {σ δ : Type}

/-- Whether a call asks which locales an adapter serves. -/
def Call.isTest : Call → Bool
  | .support .. => true
  | .listing _ .support => true
  | _ => false

namespace Session

/-- Work in which adapters were only asked which locales they serve. -/
structure Testing (s s' : Session σ) : Prop where
  counters : s'.counters = s.counters
  calls : ∃ log, s'.calls = s.calls ++ log ∧ ∀ call ∈ log, call.isTest = true

variable {s s' s'' : Session σ}

theorem Testing.refl (s : Session σ) : s.Testing s :=
  ⟨rfl, [], (List.append_nil _).symm, fun _ h => by cases h⟩

theorem Testing.trans (h : s.Testing s') (h' : s'.Testing s'') : s.Testing s'' := by
  obtain ⟨log, hl, ht⟩ := h.calls
  obtain ⟨log', hl', ht'⟩ := h'.calls
  refine ⟨h'.counters.trans h.counters, log ++ log', ?_, fun call hc => ?_⟩
  · rw [hl', hl, List.append_assoc]
  · exact (List.mem_append.mp hc).elim (ht call) (ht' call)

theorem testing_after {call : Call} (h : call.isTest = true) (w : σ) (s : Session σ) :
    s.Testing (s.after call w) :=
  ⟨rfl, [call], rfl, fun _ hc => List.mem_singleton.mp hc ▸ h⟩

theorem testing_test (a : Adapter σ δ) (whom : Addressee) (l : Locale) (s : Session σ) :
    s.Testing (s.test a whom l).2 := by
  unfold test
  split
  · exact testing_after rfl _ s
  · split
    · exact .refl s
    · exact testing_after rfl _ s

/-- What is not about tests is found in the record as before. -/
theorem Testing.filterMap_calls (h : s.Testing s') {β : Type} {f : Call → Option β}
    (hf : ∀ call, call.isTest = true → f call = none) :
    s'.calls.filterMap f = s.calls.filterMap f := by
  obtain ⟨log, hl, ht⟩ := h.calls
  have hlog : log.filterMap f = [] :=
    List.filterMap_eq_nil_iff.mpr fun call hc => hf call (ht call hc)
  rw [hl, List.filterMap_append, hlog, List.append_nil]

theorem Testing.countP_calls (h : s.Testing s') {f : Call → Bool}
    (hf : ∀ call, call.isTest = true → f call = false) :
    s'.calls.countP f = s.calls.countP f := by
  obtain ⟨log, hl, ht⟩ := h.calls
  have hlog : log.countP f = 0 :=
    List.countP_eq_zero.mpr fun call hc => by simp [hf call (ht call hc)]
  rw [hl, List.countP_append, hlog, Nat.add_zero]

end Session

namespace Registry

theorem testing_serving (r : Registry σ δ) (l : Locale) (ks : List Kind) (s : Session σ) :
    s.Testing (r.serving l ks s).2 := by
  induction ks generalizing s with
  | nil => exact .refl s
  | cons k ks ih =>
    unfold serving
    split
    · exact ih s
    · rename_i a _
      exact (Session.testing_test a (r.addressee k a) l s).trans (ih _)

theorem calls_reportDegradations (ls : List Locale) (s : Session σ) :
    (ls.foldl reportDegradation s).calls = s.calls := by
  induction ls generalizing s with
  | nil => rfl
  | cons l ls ih =>
    rw [List.foldl_cons, ih]
    unfold reportDegradation
    split <;> rfl

theorem counters_reportDegradations (ls : List Locale) (s : Session σ) :
    ∃ n, (ls.foldl reportDegradation s).counters =
      { s.counters with degradedNormalizations := n } := by
  induction ls generalizing s with
  | nil => exact ⟨s.counters.degradedNormalizations, rfl⟩
  | cons l ls ih =>
    obtain ⟨n, hn⟩ := ih (reportDegradation s l)
    refine ⟨n, hn.trans ?_⟩
    unfold reportDegradation
    split <;> rfl

/-- The call for the list of an adapter, on behalf of the available locales. -/
def enumeration (r : Registry σ δ) (e : Kind × Adapter σ δ) : Call :=
  .listing (r.addressee e.1 e.2) .availability

theorem calls_collectKeys (r : Registry σ δ) (es : List (Kind × Adapter σ δ))
    (s : Session σ) : (r.collectKeys es s).2.calls = s.calls ++ es.map r.enumeration := by
  induction es generalizing s with
  | nil => exact (List.append_nil _).symm
  | cons e es ih =>
    unfold collectKeys
    dsimp only
    rw [ih, calls_reportDegradations, List.map_cons, List.append_cons]
    rfl

theorem counters_collectKeys (r : Registry σ δ) (es : List (Kind × Adapter σ δ))
    (s : Session σ) :
    ∃ n, (r.collectKeys es s).2.counters = { s.counters with degradedNormalizations := n } := by
  induction es generalizing s with
  | nil => exact ⟨s.counters.degradedNormalizations, rfl⟩
  | cons e es ih =>
    unfold collectKeys
    dsimp only
    obtain ⟨m, hm⟩ := counters_reportDegradations
      (s.list e.2 (r.addressee e.1 e.2) .availability).1
      (s.list e.2 (r.addressee e.1 e.2) .availability).2
    obtain ⟨n, hn⟩ := ih _
    refine ⟨n, hn.trans ?_⟩
    rw [hm]
    rfl

end Registry

end LocaleServices

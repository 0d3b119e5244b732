import LocaleServices.Proofs.Service.Roster
import Mathlib.Logic.Relation

/-!
  What the services do to the world besides asking for data.

  Asking a source for adapters, an adapter for its list and an adapter for its support stirs
  the world; everything else of a session only counts and records. `Session.Quiet` says that
  a stretch of work did no more than that: the world came about by such steps, and no getter
  was called. `Inquiry.Asks` is the one other thing that happens: adapters are asked for a
  datum in turn, up to the first answer, with quiet stretches before and after each call.
  `Inquiry.Leads` ties it to the record of a session.
-/

namespace LocaleServices

variable {σ δ α : Type}

/-! ## Quiet stretches -/

/-- One question to the source or to one of its adapters, other than for a datum. -/
inductive Source.Stirs (src : Source σ δ) : σ → σ → Prop
  | preference (w : σ) : src.Stirs w (src.preference w).2
  | adapterFor (k : Kind) (c : Category) (w : σ) : src.Stirs w (src.adapterFor k c w).2
  | listing {a : Adapter σ δ} (h : src.HandsOut a) (w : σ) : src.Stirs w (a.listing w).2
  | support {a : Adapter σ δ} (h : src.HandsOut a) {test : Locale → σ → Bool × σ}
      (ht : a.support = .own test) (l : Locale) (w : σ) : src.Stirs w (test l w).2

/-- Any number of such questions. -/
def Source.Background (src : Source σ δ) : σ → σ → Prop := Relation.ReflTransGen src.Stirs

def Call.isGetter : Call → Bool
  | .getter .. => true
  | _ => false

namespace Session

/-- The recorded calls of getters. -/
def getterCalls (s : Session σ) : List Call := s.calls.filter Call.isGetter

/-- Work in which adapters were not asked for data. -/
structure Quiet (src : Source σ δ) (s s' : Session σ) : Prop where
  world : src.Background s.world s'.world
  calls : s'.getterCalls = s.getterCalls

variable {src : Source σ δ} {s s' s'' : Session σ}

theorem Quiet.refl (src : Source σ δ) (s : Session σ) : s.Quiet src s := ⟨.refl, rfl⟩

theorem Quiet.trans (h : s.Quiet src s') (h' : s'.Quiet src s'') : s.Quiet src s'' :=
  ⟨h.world.trans h'.world, h'.calls.trans h.calls⟩

theorem quiet_count (src : Source σ δ) (s : Session σ) (n : Counter) :
    s.Quiet src (s.count n) := ⟨.refl, rfl⟩

theorem quiet_say (src : Source σ δ) (s : Session σ) (m : Message) :
    s.Quiet src (s.say m) := ⟨.refl, rfl⟩

/-- A recorded call that is not one of a getter. -/
theorem quiet_after {w : σ} {call : Call} (hw : src.Background s.world w)
    (hc : call.isGetter = false) : s.Quiet src (s.after call w) := by
  refine ⟨hw, ?_⟩
  simp [getterCalls, after, hc]

theorem quiet_list {a : Adapter σ δ} (h : src.HandsOut a) (whom : Addressee) (purpose : Purpose)
    (s : Session σ) : s.Quiet src (s.list a whom purpose).2 :=
  quiet_after (.single (.listing h s.world)) rfl

theorem quiet_test {a : Adapter σ δ} (h : src.HandsOut a) (whom : Addressee) (l : Locale)
    (s : Session σ) : s.Quiet src (s.test a whom l).2 := by
  unfold test
  split
  · rename_i own ht
    exact quiet_after (.single (.support h ht l s.world)) rfl
  · split
    · exact .refl src s
    · exact quiet_list h whom .support s

/-- What an adapter says about a locale is what it serves in the world as it is. -/
theorem test_eq (a : Adapter σ δ) (whom : Addressee) (l : Locale) (s : Session σ) :
    (s.test a whom l).1 = a.serves s.world l := by
  unfold test Adapter.serves
  cases a.support with
  | own own => rfl
  | derived =>
    by_cases hl : l.bare = .root
    · simp [Locale.isCoveredBy, hl]
    · simp [hl, list]

end Session

/-! ## Asking in turn -/

/-- The adapters of a list are asked for a datum in turn, up to the first answer: from one
    world to another, with the calls that are recorded and the answer. -/
inductive Inquiry.Asks (src : Source σ δ) (c : Category) (q : Inquiry σ δ α) :
    List (Kind × Adapter σ δ) → σ → List Call → Option α → σ → Prop
  | exhausted {w w' : σ} (hw : src.Background w w') : Asks src c q [] w [] none w'
  | passed {k : Kind} {a : Adapter σ δ} {rest : List (Kind × Adapter σ δ)} {w u u' w' : σ}
      {log : List Call} {answer : Option α} (hw : src.Background w u)
      (hg : q.getter a q.locale q.key u = (none, u')) (hr : Asks src c q rest u' log answer w') :
      Asks src c q ((k, a) :: rest) w
        (.getter ⟨c, k, a.label⟩ q.locale q.key q.expected false :: log) answer w'
  | answered {k : Kind} {a : Adapter σ δ} {rest : List (Kind × Adapter σ δ)} {w u u' w' : σ}
      {value : α} (hw : src.Background w u)
      (hg : q.getter a q.locale q.key u = (some value, u')) (hw' : src.Background u' w') :
      Asks src c q ((k, a) :: rest) w
        [.getter ⟨c, k, a.label⟩ q.locale q.key q.expected true] (some value) w'

namespace Inquiry

variable {src : Source σ δ} {c : Category} {q : Inquiry σ δ α}
  {es fs : List (Kind × Adapter σ δ)} {w v u : σ} {log log' : List Call}
  {answer : Option α} {value : α}

theorem Asks.of_background (hw : src.Background w v) (h : q.Asks src c es v log answer u) :
    q.Asks src c es w log answer u := by
  cases h with
  | exhausted h => exact .exhausted (hw.trans h)
  | passed h hg hr => exact .passed (hw.trans h) hg hr
  | answered h hg h' => exact .answered (hw.trans h) hg h'

theorem Asks.background (h : q.Asks src c es w log answer v) (hv : src.Background v u) :
    q.Asks src c es w log answer u := by
  induction h with
  | exhausted h => exact .exhausted (h.trans hv)
  | passed h hg _ ih => exact .passed h hg (ih hv)
  | answered h hg h' => exact .answered h hg (h'.trans hv)

/-- After adapters without an answer the next ones are asked. -/
theorem Asks.append (h : q.Asks src c es w log none v) (h' : q.Asks src c fs v log' answer u) :
    q.Asks src c (es ++ fs) w (log ++ log') answer u := by
  generalize hn : (none : Option α) = found at h
  induction h with
  | exhausted hw => exact h'.of_background hw
  | passed hw hg _ ih => exact .passed hw hg (ih h' hn)
  | answered => cases hn

/-- After an answer nobody else is asked. -/
theorem Asks.append_right (h : q.Asks src c es w log (some value) v)
    (fs : List (Kind × Adapter σ δ)) : q.Asks src c (es ++ fs) w log (some value) v := by
  generalize hs : some value = found at h
  induction h with
  | exhausted => cases hs
  | passed hw hg _ ih => exact .passed hw hg (ih hs)
  | answered hw hg hw' => exact .answered hw hg hw'

/-- A stretch of work that asked the adapters of a list in turn, recorded the calls and came
    to an answer. -/
def Leads (q : Inquiry σ δ α) (src : Source σ δ) (c : Category)
    (es : List (Kind × Adapter σ δ)) (s : Session σ) (answer : Option α) (s' : Session σ) :
    Prop :=
  ∃ log, q.Asks src c es s.world log answer s'.world ∧ s'.getterCalls = s.getterCalls ++ log

variable {s s' s'' : Session σ}

theorem leads_nil (h : s.Quiet src s') : q.Leads src c [] s none s' :=
  ⟨[], .exhausted h.world, h.calls.trans (List.append_nil _).symm⟩

theorem Leads.of_quiet (h : s.Quiet src s') (h' : q.Leads src c es s' answer s'') :
    q.Leads src c es s answer s'' := by
  obtain ⟨log, ha, hl⟩ := h'
  exact ⟨log, ha.of_background h.world, hl.trans (congrArg (· ++ log) h.calls)⟩

theorem Leads.quiet (h : q.Leads src c es s answer s') (h' : s'.Quiet src s'') :
    q.Leads src c es s answer s'' := by
  obtain ⟨log, ha, hl⟩ := h
  exact ⟨log, ha.background h'.world, h'.calls.trans hl⟩

theorem Leads.append (h : q.Leads src c es s none s') (h' : q.Leads src c fs s' answer s'') :
    q.Leads src c (es ++ fs) s answer s'' := by
  obtain ⟨log, ha, hl⟩ := h
  obtain ⟨log', ha', hl'⟩ := h'
  refine ⟨log ++ log', ha.append ha', ?_⟩
  rw [hl', hl, List.append_assoc]

theorem Leads.append_right (h : q.Leads src c es s (some value) s')
    (fs : List (Kind × Adapter σ δ)) : q.Leads src c (es ++ fs) s (some value) s' := by
  obtain ⟨log, ha, hl⟩ := h
  exact ⟨log, ha.append_right fs, hl⟩

/-- One adapter is asked and has an answer. -/
theorem leads_of_answered {k : Kind} {a : Adapter σ δ} {w' : σ}
    (hg : q.getter a q.locale q.key s.world = (some value, w')) :
    q.Leads src c [(k, a)] s (some value)
      (s.get q.getter a ⟨c, k, a.label⟩ q.locale q.key q.expected).2 := by
  refine ⟨_, .answered .refl hg ?_, ?_⟩
  · simp only [Session.get, Session.after, hg]
    exact .refl
  · simp [Session.getterCalls, Session.get, Session.after, hg, Call.isGetter]

/-- One adapter is asked and has none. -/
theorem leads_of_passed {k : Kind} {a : Adapter σ δ} {w' : σ}
    (hg : q.getter a q.locale q.key s.world = (none, w')) :
    q.Leads src c [(k, a)] s none
      (s.get q.getter a ⟨c, k, a.label⟩ q.locale q.key q.expected).2 := by
  refine ⟨_, .passed .refl hg (.exhausted ?_), ?_⟩
  · simp only [Session.get, Session.after, hg]
    exact .refl
  · simp [Session.getterCalls, Session.get, Session.after, hg, Call.isGetter]

end Inquiry

end LocaleServices

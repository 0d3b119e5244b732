/-!
  Counters of what the services did.

  A `Counter` names one of nine events and `Counters` holds a number for each; `add` raises
  one and leaves the others (`get_add`). `hitRate` is the share of kind lists that were
  remembered, in per cent.
-/

namespace LocaleServices

inductive Counter
  | fastPath
  | fallbackChain
  | candidateExamined
  | kindsHit
  | kindsMiss
  | availabilityComputation
  | contractViolation
  | degradedNormalization
  | notFound
deriving DecidableEq

structure Counters where
  fastPaths : Nat
  fallbackChains : Nat
  candidatesExamined : Nat
  kindsHits : Nat
  kindsMisses : Nat
  availabilityComputations : Nat
  contractViolations : Nat
  degradedNormalizations : Nat
  notFound : Nat
deriving DecidableEq

namespace Counter

/-- Every counter, in the order of a report. -/
def all : List Counter :=
  [fastPath, fallbackChain, candidateExamined, kindsHit, kindsMiss, availabilityComputation,
   contractViolation, degradedNormalization, notFound]

/-- The name that reports show. -/
def title : Counter → String
  | fastPath => "fast_path_resolutions"
  | fallbackChain => "fallback_chains"
  | candidateExamined => "candidates_examined"
  | kindsHit => "kinds_cache_hits"
  | kindsMiss => "kinds_cache_misses"
  | availabilityComputation => "availability_computations"
  | contractViolation => "contract_violations"
  | degradedNormalization => "degraded_normalizations"
  | notFound => "not_found"

end Counter

namespace Counters

def zero : Counters := ⟨0, 0, 0, 0, 0, 0, 0, 0, 0⟩

def get (m : Counters) : Counter → Nat
  | .fastPath => m.fastPaths
  | .fallbackChain => m.fallbackChains
  | .candidateExamined => m.candidatesExamined
  | .kindsHit => m.kindsHits
  | .kindsMiss => m.kindsMisses
  | .availabilityComputation => m.availabilityComputations
  | .contractViolation => m.contractViolations
  | .degradedNormalization => m.degradedNormalizations
  | .notFound => m.notFound

/-- Counts an event `n` times. -/
def add (m : Counters) (n : Nat) : Counter → Counters
  | .fastPath => { m with fastPaths := m.fastPaths + n }
  | .fallbackChain => { m with fallbackChains := m.fallbackChains + n }
  | .candidateExamined => { m with candidatesExamined := m.candidatesExamined + n }
  | .kindsHit => { m with kindsHits := m.kindsHits + n }
  | .kindsMiss => { m with kindsMisses := m.kindsMisses + n }
  | .availabilityComputation =>
    { m with availabilityComputations := m.availabilityComputations + n }
  | .contractViolation => { m with contractViolations := m.contractViolations + n }
  | .degradedNormalization => { m with degradedNormalizations := m.degradedNormalizations + n }
  | .notFound => { m with notFound := m.notFound + n }

/-- How often a kind list was asked for. -/
def kindsQueries (m : Counters) : Nat := m.kindsHits + m.kindsMisses

/-- Hits per query, times a hundred; zero when there was no query. -/
def hitRate (m : Counters) : Float :=
  if m.kindsQueries = 0 then 0
  else m.kindsHits.toFloat / m.kindsQueries.toFloat * 100

theorem get_add (m : Counters) (n : Nat) (c d : Counter) :
    (m.add n c).get d = m.get d + if c = d then n else 0 := by
  cases c <;> cases d <;> rfl

end Counters

end LocaleServices

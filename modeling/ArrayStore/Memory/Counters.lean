import ArrayStore.Decimal.Fixed

/-! Lifetime counters of an allocator. -/

namespace ArrayStore

structure Statistics where
  totalAllocations : Nat := 0
  totalReleases : Nat := 0
  allocationFailures : Nat := 0
  evictions : Nat := 0
  peakOutstanding : Nat := 0
  deriving DecidableEq, Repr, Inhabited

namespace Statistics

def successRate (s : Statistics) : Float :=
  let attempts := s.totalAllocations + s.allocationFailures
  if attempts = 0 then 1.0
  else s.totalAllocations.toUInt64.toFloat / attempts.toUInt64.toFloat

def summary (s : Statistics) : String :=
  "AllocatorStats \x7b allocations: " ++ toString s.totalAllocations
    ++ ", releases: " ++ toString s.totalReleases
    ++ ", failures: " ++ toString s.allocationFailures
    ++ ", evictions: " ++ toString s.evictions
    ++ ", peak: " ++ toString s.peakOutstanding
    ++ ", success_rate: "
    ++ Decimal.Format.double.twoPlaces (s.successRate * 100.0).toBits.toNat ++ "% \x7d"

end Statistics

structure Counters where
  statistics : Statistics := {}
  outstanding : Nat := 0
  deriving DecidableEq, Repr, Inhabited

namespace Counters

inductive Event where
  | allocation | release | failure | eviction
  deriving DecidableEq, Repr

/-- Record an event. A release without an allocation takes the 64-bit count of
outstanding blocks below zero, where it wraps. -/
def record (c : Counters) : Event → Counters
  | .allocation =>
    let current := c.outstanding + 1
    { statistics :=
        { c.statistics with
          totalAllocations := c.statistics.totalAllocations + 1
          peakOutstanding := max c.statistics.peakOutstanding current }
      outstanding := current }
  | .release =>
    { statistics :=
        { c.statistics with totalReleases := c.statistics.totalReleases + 1 }
      outstanding := if c.outstanding = 0 then UInt64.size - 1 else c.outstanding - 1 }
  | .failure =>
    { c with statistics :=
        { c.statistics with allocationFailures := c.statistics.allocationFailures + 1 } }
  | .eviction =>
    { c with statistics := { c.statistics with evictions := c.statistics.evictions + 1 } }

end Counters

end ArrayStore

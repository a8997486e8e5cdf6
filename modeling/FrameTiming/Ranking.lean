import FrameTiming.Number.Order
import FrameTiming.Number.Whole
import FrameTiming.Percentile
import FrameTiming.Run

/-! # Ranking

The runs of a dataset by their medians, fastest first. The stable ones lie strictly between the 5th
and the 95th percentile of the medians; three runs represent all of them.
-/

namespace FrameTiming

open Number (totalLe roundNat)

/-! ## Ranked runs -/

structure RunRef where
  index : Nat
  name : String
  median : Float
deriving DecidableEq

def Run.ref (run : Run) (index : Nat) : RunRef :=
  ⟨index, run.name, run.stats.median⟩

/-- Runs and their references by ascending median; equal medians keep their order. -/
def rankRuns (runs : List Run) : List (RunRef × Run) :=
  (runs.mapIdx fun index run => (run.ref index, run)).mergeSort fun first second =>
    totalLe first.1.median second.1.median

/-! ## Stable band -/

structure Band where
  low : Float
  high : Float
deriving DecidableEq

namespace Band

/-- The 5th and the 95th percentile of ascending medians. There is no number to bound an empty
list. -/
def ofMedians (medians : List Float) : Except PercentileFault Band := do
  let low? ← Percentile.ofSorted medians.toArray 5
  let high? ← Percentile.ofSorted medians.toArray 95
  return ⟨low?.getD (0.0 / 0.0), high?.getD (0.0 / 0.0)⟩

def contains (band : Band) (median : Float) : Bool :=
  band.low < median && median < band.high

end Band

/-! ## Representatives -/

/-- The position nearest to a percentile among `count` sorted items; a half goes up. -/
def rankIndex (percentile : Float) (count : Nat) : Nat :=
  min (roundNat (Percentile.rank percentile count)) (count - 1)

example : rankIndex 5 3 = 0 ∧ rankIndex 95 3 = 2 ∧ rankIndex 50 4 = 2 := by decide +kernel

structure Representatives where
  low : RunRef
  median : RunRef
  high : RunRef
deriving DecidableEq

namespace Representatives

def select? (ranked : List RunRef) : Option Representatives := do
  let low ← ranked[rankIndex 5 ranked.length]?
  let median ← ranked[ranked.length / 2]?
  let high ← ranked[rankIndex 95 ranked.length]?
  return ⟨low, median, high⟩

end Representatives

end FrameTiming

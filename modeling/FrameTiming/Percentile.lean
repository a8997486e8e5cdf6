import FrameTiming.Error
import FrameTiming.Number.Order
import FrameTiming.Number.Whole

/-! # Percentiles

The percentile `p` of `n` ascending values lies at rank `p / 100 * (n - 1)`, linearly between the
values around it. There is none for a rank behind the last value, nor between two values that are out
of order or not comparable.
-/

namespace FrameTiming

open Number (sortAscending floorNat ceilNat)

namespace Percentile

/-- The value kept between two bounds, which have to be in order. -/
def clamp (low high value : Float) : Except PercentileFault Float :=
  if low ≤ high then
    let raised := if value < low then low else value
    .ok (if high < raised then high else raised)
  else
    .error .notAscending

def rank (percentile : Float) (count : Nat) : Float :=
  percentile / 100.0 * Float.ofNat (count - 1)

/-- The percentile of values that are taken to be ascending. -/
def ofSorted (sorted : Array Float) (percentile : Float) : Except PercentileFault (Option Float) :=
  if sorted.size ≤ 1 then
    .ok sorted[0]?
  else
    let rank := rank percentile sorted.size
    let lower := floorNat rank
    let upper := min (ceilNat rank) (sorted.size - 1)
    match sorted[lower]?, sorted[upper]? with
    | some low, some high =>
        if lower = upper then .ok (some low)
        else
          let weight := rank - Float.ofNat lower
          (clamp low high (low + (high - low) * weight)).map some
    | _, _ => .error .rankBeyondEnd

def ofValues (values : List Float) (percentile : Float) : Except PercentileFault (Option Float) :=
  ofSorted (sortAscending values).toArray percentile

example : (ofSorted #[10, 20, 30, 40] 50).toOption = some (some 25) := by decide +kernel
example : (ofSorted #[10, 20, 30] 150).toOption = none := by decide +kernel
example : (ofSorted #[20, 10] 50).toOption = none := by decide +kernel

end Percentile

/-! ## Tables -/

def percentileCount : Nat := 100

/-- Nanoseconds in a millisecond. -/
def millisecondLength : Float := 1e6

/-- The percentiles of the frame durations of a run, in milliseconds. -/
structure PercentileTable where
  values : Vector Float percentileCount
deriving DecidableEq

namespace PercentileTable

def ofDurations (durations : List UInt64) : Except PercentileFault (Option PercentileTable) :=
  let sorted := (sortAscending (durations.map UInt64.toFloat)).toArray
  if sorted.isEmpty then
    .ok none
  else do
    let values ← (Vector.range percentileCount).mapM fun percentile => do
      let value? ← Percentile.ofSorted sorted (Float.ofNat percentile)
      .ok (value?.getD 0 / millisecondLength)
    .ok (some ⟨values⟩)

def get? (table : PercentileTable) (percentile : Nat) : Option Float :=
  table.values[percentile]?

def median (table : PercentileTable) : Float := table.values[50]

def p90 (table : PercentileTable) : Float := table.values[90]

def p95 (table : PercentileTable) : Float := table.values[95]

end PercentileTable

end FrameTiming

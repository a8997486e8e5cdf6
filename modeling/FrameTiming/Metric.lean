import FrameTiming.Number.Single
import FrameTiming.Percentile

/-! # Metrics

A metric reduces one number per run to a single number. Extremes and spread are found on the
deviations from the mean in single precision: numbers that lie close together and far from zero keep
their differences that way.
-/

namespace FrameTiming

inductive MetricKind where
  | absolute
  | relative
deriving DecidableEq, Repr

namespace MetricKind

def name : MetricKind → String
  | .absolute => "absolute"
  | .relative => "relative"

end MetricKind

structure Metric where
  name : String
  kind : MetricKind
  reduce : List Float → Except PercentileFault Float

namespace Metric

open Number (narrow widen)

/-- The result where there is none: not a number. -/
def undefined : Float :=
  0.0 / 0.0

/-! ## Deviations -/

def mean (values : List Float) : Float :=
  Number.sum values / Float.ofNat values.length

def deviations (values : List Float) : List Float32 :=
  let center := mean values
  values.map fun value => narrow (value - center)

/-- Keeps a value until the deviation of a later one surpasses its own. -/
def extreme (surpasses : Float32 → Float32 → Bool) (values : List Float) : Float :=
  match values.zip (deviations values) with
  | [] => undefined
  | first :: rest =>
      (rest.foldl (fun best next => if surpasses next.2 best.2 then next else best) first).1

def smallest (values : List Float) : Float :=
  extreme (fun left right => left < right) values

def largest (values : List Float) : Float :=
  extreme (fun left right => right < left) values

example : smallest [3, 1, 2] = 1 ∧ largest [3, 1, 2] = 3 := by decide +kernel

/-! ## Spread -/

/-- The root of the variance of all values, by a function that computes it from their deviations.
What rounding makes of a variance of zero counts as zero. -/
def spread (variance : List Float32 → Float32) (values : List Float) : Float :=
  if values.isEmpty then undefined
  else
    let computed := widen (variance (deviations values))
    (if 0 < computed then computed else 0).sqrt

/-! ## Noise -/

/-- A bound below this size counts as zero: the distance from 1 to the next larger number. -/
def negligible : Float :=
  2.220446049250313e-16

example : negligible.toBits = 0x3cb0000000000000 := by decide +kernel

/-- The distance from the 5th to the 95th percentile, as a percentage of the former. -/
def noise (values : List Float) : Except PercentileFault Float := do
  let low? ← Percentile.ofValues values 5
  let high? ← Percentile.ofValues values 95
  match low?, high? with
  | some low, some high =>
      return if low.abs < negligible then 0 else (low - high).abs / low * 100
  | _, _ => return undefined

/-! ## Metrics -/

def minimum : Metric :=
  ⟨"Min", .absolute, fun values => .ok (smallest values)⟩

def maximum : Metric :=
  ⟨"Max", .absolute, fun values => .ok (largest values)⟩

def standardDeviation (variance : List Float32 → Float32) : Metric :=
  ⟨"Standard deviation", .absolute, fun values => .ok (spread variance values)⟩

def relativeNoise : Metric :=
  ⟨"Relative noise", .relative, noise⟩

def standardWith (variance : List Float32 → Float32) : List Metric :=
  [minimum, maximum, standardDeviation variance, relativeNoise]

/-- The mean of the squares less the square of the mean, added up one after the other and every step
in single precision. -/
def sequentialVariance (deviations : List Float32) : Float32 :=
  let count := narrow (Float.ofNat deviations.length)
  let total := deviations.foldl (· + ·) 0
  let squares := deviations.foldl (fun total deviation => total + deviation * deviation) 0
  let mean := total / count
  squares / count - mean * mean

example : spread sequentialVariance [2, 4, 4, 4, 5, 5, 7, 9] = 2 := by decide +kernel

def standard : List Metric :=
  standardWith sequentialVariance

end Metric

end FrameTiming

import FrameTiming.Percentile

/-! # Statistics of a run

Numbers computed from the frame durations of one run: percentiles, total and average, and how far and
how often the target frame time was missed.
-/

namespace FrameTiming

private def average (measure : UInt64 → Float) (durations : List UInt64) : Float :=
  if durations.isEmpty then 0
  else Number.sum (durations.map measure) / Float.ofNat durations.length

def missedPercent (durations : List UInt64) (target : Float) : Float :=
  if durations.isEmpty then 0
  else
    let missed := durations.countP fun duration => target < duration.toFloat
    Float.ofNat missed / Float.ofNat durations.length * 100

def missedScore (durations : List UInt64) (target : Float) : Float :=
  average (fun duration =>
    let excess := duration.toFloat - target
    if 0 < excess then excess * excess else 0) durations

/-- The statistics of a run, times in milliseconds. -/
structure Stats where
  percentiles : PercentileTable
  total : Float
  average : Float
  missed : Float
  /-- The mean square of the time beyond the target, in square nanoseconds. -/
  missedScore : Float
deriving DecidableEq

namespace Stats

/-- The statistics of some durations against a target frame time in nanoseconds. Without durations
there are none; `name` names the run in that case. -/
def ofDurations (name : String) (durations : List UInt64) (target : Float) :
    Except AnalysisError Stats :=
  match PercentileTable.ofDurations durations with
  | .error fault => .error (.percentile fault)
  | .ok none => .error (.emptyRun name)
  | .ok (some percentiles) =>
      let total := Number.sum (durations.map UInt64.toFloat)
      .ok {
        percentiles
        total := total / millisecondLength
        average := total / Float.ofNat durations.length / millisecondLength
        missed := missedPercent durations target
        missedScore := FrameTiming.missedScore durations target }

def median (stats : Stats) : Float := stats.percentiles.median

def p90 (stats : Stats) : Float := stats.percentiles.p90

def p95 (stats : Stats) : Float := stats.percentiles.p95

end Stats

end FrameTiming

import FrameTiming.Number.Layout
import FrameTiming.Summary

/-! # Reports

The results as text for a reader: one block for a run, one for a dataset. Times and percentages have
three places; the missed score, which may be of any size, is written with an exponent.
-/

namespace FrameTiming.Report

open Number (fixed scientific)

/-! ## Numbers -/

def amount (value : Float) : String :=
  fixed 3 value

def score (value : Float) : String :=
  scientific 2 value

example : amount 16.6665 = "16.666" ∧ amount 0.0005 = "0.001" := by decide +kernel
example : score 0 = "0.00e0" ∧ score 12345 = "1.23e4" := by decide +kernel

def unit : MetricKind → String
  | .absolute => "ms"
  | .relative => "%"

/-! ## Runs -/

/-- The time per state, where there is more than one. -/
def stateLines (stateTime : StateTime) : List String :=
  if stateTime.entries.length ≤ 1 then []
  else stateTime.entries.map fun (state, time) =>
    "\tstate " ++ toString state.toInt ++ ": " ++ amount time ++ " ms\n"

def run (run : Run) : String :=
  let stats := run.stats
  run.name ++ ":\tduration: " ++ amount stats.total ++ " ms,\taverage: "
      ++ amount stats.average ++ " ms\n"
    ++ "\tmedian: " ++ amount stats.median ++ " ms,\tp90: " ++ amount stats.p90 ++ " ms,\tp95: "
      ++ amount stats.p95 ++ " ms\n"
    ++ "\tmissed frames: " ++ amount stats.missed ++ "%,\tmissed score: "
      ++ score stats.missedScore ++ "\n"
    ++ String.join (stateLines run.stateTime)

/-! ## Datasets -/

/-- The results of a metric. Missed frames are a percentage whatever the metric is. -/
def metric (summary : MetricSummary) : String :=
  let values := summary.values
  let unit := unit summary.kind
  summary.metric ++ ":\n"
    ++ "  Average:       " ++ amount values.average ++ " " ++ unit ++ "\n"
    ++ "  Median:        " ++ amount values.median ++ " " ++ unit ++ "\n"
    ++ "  P90:           " ++ amount values.p90 ++ " " ++ unit ++ "\n"
    ++ "  P95:           " ++ amount values.p95 ++ " " ++ unit ++ "\n"
    ++ "  Missed frames: " ++ amount values.missedFrames ++ " %\n"
    ++ (values.missedScore?.elim "" fun value => "  Missed score:  " ++ score value ++ "\n")
    ++ (values.timeInState?.elim "" fun value =>
      "  Time in state: " ++ amount value ++ " " ++ unit ++ "\n")

def heading (summary : Summary) : String :=
  "=== " ++ summary.dataset ++ " ===\n"
    ++ "Dataset size: " ++ toString summary.runCount ++ "\n"
    ++ (if 0 < summary.failureCount then
      "Skipped runs: " ++ toString summary.failureCount ++ "\n" else "")
    ++ "Stable band: " ++ amount summary.band.low ++ " .. " ++ amount summary.band.high ++ " ms ("
      ++ toString summary.stable.length ++ " of " ++ toString summary.runCount ++ " runs"
      ++ (if summary.trimmed then ", outliers trimmed" else "") ++ ")\n"

def dataset (dataset : Dataset) (summary : Summary) : String :=
  heading summary ++ "\n"
    ++ String.join (summary.metrics.map metric)
    ++ "\nMedian result:\n"
    ++ (dataset.runs[summary.representatives.median.index]?.elim "" run)

end FrameTiming.Report

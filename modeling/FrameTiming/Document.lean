import FrameTiming.Json
import FrameTiming.Summary

/-! # Documents

The results of an analysis for other programs: one JSON document with the runs and the summary of
every dataset.
-/

namespace FrameTiming

/-! ## Runs -/

/-- The milliseconds spent in each state under its number, in the order of the keys as text. -/
def StateTime.toJson (stateTime : StateTime) : Json :=
  let members := stateTime.entries.map fun (state, time) => (toString state.toInt, Json.float time)
  .object (members.mergeSort fun first second => !decide (second.1 < first.1))

/-- The statistics of a run; the time per state only for logs with states. -/
def Run.toJson (withState : Bool) (run : Run) : Json :=
  let stats := run.stats
  .object ([
    ("name", .string run.name),
    ("path", .string run.source.text),
    ("frames", .natural run.analyzed),
    ("duration_ms", .float stats.total),
    ("average_ms", .float stats.average),
    ("median_ms", .float stats.median),
    ("p90_ms", .float stats.p90),
    ("p95_ms", .float stats.p95),
    ("missed_frames_percent", .float stats.missed),
    ("missed_score", .float stats.missedScore)]
    ++ if withState then [("state_durations_ms", run.stateTime.toJson)] else [])

/-! ## Summaries -/

def RunRef.toJson (ref : RunRef) : Json :=
  .object [
    ("index", .natural ref.index),
    ("name", .string ref.name),
    ("median_ms", .float ref.median)]

/-- The values of the series; those that are absent have no member. -/
def SeriesValues.toJson (values : SeriesValues) : Json :=
  let present (key : String) (value? : Option Float) : List (String × Json) :=
    value?.toList.map fun value => (key, .float value)
  .object ([
    ("average", .float values.average),
    ("median", .float values.median),
    ("p90", .float values.p90),
    ("p95", .float values.p95),
    ("missed_frames", .float values.missedFrames)]
    ++ present "missed_score" values.missedScore?
    ++ present "time_in_state" values.timeInState?)

def MetricSummary.toJson (summary : MetricSummary) : Json :=
  .object [
    ("metric", .string summary.metric),
    ("kind", .string summary.kind.name),
    ("values", summary.values.toJson)]

def Representatives.toJson (representatives : Representatives) : Json :=
  .object [
    ("low", representatives.low.toJson),
    ("median", representatives.median.toJson),
    ("high", representatives.high.toJson)]

def Summary.toJson (summary : Summary) : Json :=
  .object [
    ("dataset", .string summary.dataset),
    ("run_count", .natural summary.runCount),
    ("failed_runs", .natural summary.failureCount),
    ("sorted_runs", .array (summary.ranked.map RunRef.toJson)),
    ("low_bound_ms", .float summary.band.low),
    ("high_bound_ms", .float summary.band.high),
    ("stable_runs", .array (summary.stable.map RunRef.toJson)),
    ("outlier_trimming_applied", .boolean summary.trimmed),
    ("metrics", .array (summary.metrics.map MetricSummary.toJson)),
    ("representatives", summary.representatives.toJson)]

/-! ## Documents -/

namespace Document

def version : String := "0.1.0"

def format : String := "framestat-json-v1"

def dataset (withState : Bool) (dataset : Dataset) (summary : Summary) : Json :=
  .object [
    ("runs", .array (dataset.runs.map (Run.toJson withState))),
    ("summary", summary.toJson)]

def ofDatasets (withState : Bool) (summarized : List (Dataset × Summary)) : Json :=
  .object [
    ("version", .string version),
    ("format", .string format),
    ("datasets", .array (summarized.map fun (data, summary) => dataset withState data summary))]

end Document

end FrameTiming

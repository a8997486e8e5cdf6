import FrameTiming.Dataset
import FrameTiming.Metric
import FrameTiming.Ranking

/-! # Summaries

What the runs of a dataset have in common: their ranking, the stable band, every metric of every
series, and the runs that represent them. With outlier trimming the metrics see only the stable runs;
without any stable run they see all runs in either case.
-/

namespace FrameTiming

/-! ## Series -/

inductive Series where
  | average
  | median
  | p90
  | p95
  | missedFrames
  | missedScore
  | timeInState
deriving DecidableEq, Repr

namespace Series

def ofRun (series : Series) (run : Run) : Float :=
  match series with
  | .average => run.stats.average
  | .median => run.stats.median
  | .p90 => run.stats.p90
  | .p95 => run.stats.p95
  | .missedFrames => run.stats.missed
  | .missedScore => run.stats.missedScore
  | .timeInState => run.stateTime.inState defaultState

end Series

structure SeriesValues where
  average : Float
  median : Float
  p90 : Float
  p95 : Float
  missedFrames : Float
  /-- Present where the configuration asks for it. -/
  missedScore? : Option Float
  /-- Present for logs with states. -/
  timeInState? : Option Float
deriving DecidableEq

structure MetricSummary where
  metric : String
  kind : MetricKind
  values : SeriesValues
deriving DecidableEq

namespace MetricSummary

def ofRuns (config : Config) (runs : List Run) (metric : Metric) :
    Except PercentileFault MetricSummary := do
  let reduce (series : Series) : Except PercentileFault Float :=
    metric.reduce (runs.map series.ofRun)
  let reduceIf (wanted : Bool) (series : Series) : Except PercentileFault (Option Float) :=
    if wanted then (reduce series).map some else .ok none
  return {
    metric := metric.name
    kind := metric.kind
    values := {
      average := ← reduce .average
      median := ← reduce .median
      p90 := ← reduce .p90
      p95 := ← reduce .p95
      missedFrames := ← reduce .missedFrames
      missedScore? := ← reduceIf config.missedScore .missedScore
      timeInState? := ← reduceIf config.withState .timeInState } }

end MetricSummary

/-! ## Summaries -/

structure Summary where
  dataset : String
  runCount : Nat
  failureCount : Nat
  ranked : List RunRef
  band : Band
  stable : List RunRef
  /-- The metrics are about the stable runs only. -/
  trimmed : Bool
  metrics : List MetricSummary
  representatives : Representatives
deriving DecidableEq

namespace Summary

def outliers (summary : Summary) : List RunRef :=
  summary.ranked.filter fun ref => !summary.stable.any fun stable => stable.index = ref.index

def liftFault {Value : Type} (result : Except PercentileFault Value) :
    Except AnalysisError Value :=
  result.mapError .percentile

def ofDataset (config : Config) (metrics : List Metric) (dataset : Dataset) :
    Except AnalysisError Summary := do
  let ranked := rankRuns dataset.runs
  let refs := ranked.map (·.1)
  match Representatives.select? refs with
  | none => .error (.emptyDataset dataset.name)
  | some representatives =>
      let band ← liftFault (Band.ofMedians (refs.map RunRef.median))
      let stable := ranked.filter fun (ref, _) => band.contains ref.median
      let trimmed := config.trimOutliers && !stable.isEmpty
      let considered := (if trimmed then stable else ranked).map (·.2)
      return {
        dataset := dataset.name
        runCount := dataset.runs.length
        failureCount := dataset.failures.length
        ranked := refs
        band
        stable := stable.map (·.1)
        trimmed
        metrics := ← liftFault (metrics.mapM (MetricSummary.ofRuns config considered))
        representatives }

end Summary

end FrameTiming

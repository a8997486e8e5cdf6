import FrameTiming.Proofs.StableBand

/-! # Trimming outliers

Whether outliers are trimmed shows in the numbers of the metrics only, and not even there without a
stable run. Where they are trimmed, their runs may have any numbers beyond their medians.
-/

namespace FrameTiming

/-! ## Without runs -/

theorem Summary.ofDataset_of_empty (config : Config) (metrics : List Metric) {dataset : Dataset}
    (empty : dataset.runs = []) :
    Summary.ofDataset config metrics dataset = .error (.emptyDataset dataset.name) := by
  have none : Representatives.select? ((rankRuns dataset.runs).map (·.1)) = none := by
    rw [map_fst_rankRuns, empty]
    simp [rankRefs, Representatives.select?]
  rw [Summary.ofDataset]
  simp only [none]

/-! ## On and off -/

def Config.withTrimming (config : Config) (trim : Bool) : Config :=
  { config with trimOutliers := trim }

/-- What a reduced metric tells apart from its numbers: its name and kind, and which of the optional
numbers it has. -/
def MetricSummary.shape (reduced : MetricSummary) : String × MetricKind × Bool × Bool :=
  (reduced.metric, reduced.kind, reduced.values.missedScore?.isSome,
    reduced.values.timeInState?.isSome)

theorem MetricSummary.shape_of_ofRuns {config : Config} {runs : List Run} {metric : Metric}
    {reduced : MetricSummary} (made : MetricSummary.ofRuns config runs metric = .ok reduced) :
    reduced.shape = (metric.name, metric.kind, config.missedScore, config.withState) := by
  have present : ∀ (wanted : Bool) (series : Series) (result : Option Float),
      (if wanted then (metric.reduce (runs.map series.ofRun)).map some else .ok none) =
        .ok result → result.isSome = wanted := by
    intro wanted series result computed
    cases wanted with
    | false => rw [← Except.ok.inj computed]; rfl
    | true =>
        rcases map_eq_ok_iff.mp computed with ⟨number, -, same⟩
        rw [same]
        rfl
  simp only [MetricSummary.ofRuns, bind_eq_ok_iff] at made
  rcases made with ⟨average, -, median, -, p90, -, p95, -, missed, -, score?, scoreFound, time?,
    timeFound, same⟩
  rw [← Except.ok.inj same, shape, present _ _ _ scoreFound, present _ _ _ timeFound]

theorem map_shape_of_mapM {config : Config} {runs : List Run} {metrics : List Metric}
    {reduced : List MetricSummary}
    (computed : metrics.mapM (MetricSummary.ofRuns config runs) = .ok reduced) :
    reduced.map MetricSummary.shape =
      metrics.map fun metric => (metric.name, metric.kind, config.missedScore, config.withState) := by
  have each := mapM_eq_ok_iff.mp computed
  clear computed
  induction each with
  | nil => rfl
  | cons made _ induction =>
      rw [List.map_cons, List.map_cons, induction, MetricSummary.shape_of_ofRuns made]

section Trimming

variable {config : Config} {metrics : List Metric} {dataset : Dataset}

/-- Everything but the gate and the metrics comes about in the same way. -/
theorem Summarizes.of_withTrimming {trim other : Bool} {summary otherSummary : Summary}
    (summarizes : Summarizes (config.withTrimming trim) metrics dataset summary)
    (otherSummarizes : Summarizes (config.withTrimming other) metrics dataset otherSummary) :
    summary = { otherSummary with trimmed := summary.trimmed, metrics := summary.metrics } := by
  have ranked : summary.ranked = otherSummary.ranked :=
    summarizes.ranked.trans otherSummarizes.ranked.symm
  have band : summary.band = otherSummary.band := by
    have bounded := summarizes.band
    rw [ranked, otherSummarizes.band] at bounded
    exact (Except.ok.inj bounded).symm
  have stable : summary.stable = otherSummary.stable := by
    rw [summarizes.stable, otherSummarizes.stable, ranked, band]
  have representatives : summary.representatives = otherSummary.representatives := by
    have selected := summarizes.representatives
    rw [ranked, otherSummarizes.representatives] at selected
    exact (Option.some.inj selected).symm
  have name := summarizes.name.trans otherSummarizes.name.symm
  have runCount := summarizes.runCount.trans otherSummarizes.runCount.symm
  have failureCount := summarizes.failureCount.trans otherSummarizes.failureCount.symm
  exact (Summary.mk.injEq ..).mpr
    ⟨name, runCount, failureCount, ranked, band, stable, rfl, rfl, representatives⟩

/-- Without a stable run the gate stays closed. -/
theorem Summarizes.withTrimming_of_unstable {trim : Bool} {summary : Summary}
    (summarizes : Summarizes (config.withTrimming trim) metrics dataset summary)
    (unstable : summary.stable = []) (other : Bool) :
    Summarizes (config.withTrimming other) metrics dataset summary where
  name := summarizes.name
  runCount := summarizes.runCount
  failureCount := summarizes.failureCount
  ranked := summarizes.ranked
  band := summarizes.band
  stable := summarizes.stable
  trimmed := by
    have closed := summarizes.trimmed
    rw [unstable, List.isEmpty_nil, Bool.not_true, Bool.and_false] at closed ⊢
    exact closed
  metrics := summarizes.metrics
  representatives := summarizes.representatives

end Trimming

/-! ## Runs that trimming hides -/

/-- Two datasets that look the same but for the numbers of runs without a reference in a list. Every
run still has its name and its median. -/
structure Dataset.AgreesAt (refs : List RunRef) (dataset other : Dataset) : Prop where
  name : other.name = dataset.name
  failureCount : other.failures.length = dataset.failures.length
  medians : other.runs.map (fun run => (run.name, run.stats.median)) =
    dataset.runs.map fun run => (run.name, run.stats.median)
  runs : ∀ ref ∈ refs, other.runs[ref.index]? = dataset.runs[ref.index]?

/-- References are made from names and medians. -/
theorem rankRefs_congr {runs others : List Run}
    (same : others.map (fun run => (run.name, run.stats.median)) =
      runs.map fun run => (run.name, run.stats.median)) : rankRefs others = rankRefs runs := by
  have fromMedians : ∀ runs : List Run, (runs.mapIdx fun index run => run.ref index) =
      (runs.map fun run => (run.name, run.stats.median)).mapIdx fun index entry =>
        ⟨index, entry.1, entry.2⟩ := by
    intro runs
    apply List.ext_getElem <;> simp [Run.ref]
  rw [rankRefs, rankRefs, fromMedians, fromMedians, same]

/-- Behind the gate, only the stable runs are looked up. -/
theorem Summarizes.of_agreesAt {config : Config} {metrics : List Metric} {dataset other : Dataset}
    {summary : Summary} (summarizes : Summarizes config metrics dataset summary)
    (trimmed : summary.trimmed = true) (agrees : dataset.AgreesAt summary.stable other) :
    Summarizes config metrics other summary where
  name := summarizes.name.trans agrees.name.symm
  runCount := by
    have count := congrArg List.length agrees.medians
    rw [List.length_map, List.length_map] at count
    rw [summarizes.runCount, count]
  failureCount := summarizes.failureCount.trans agrees.failureCount.symm
  ranked := summarizes.ranked.trans (rankRefs_congr agrees.medians).symm
  band := summarizes.band
  stable := summarizes.stable
  trimmed := summarizes.trimmed
  metrics := by
    have computed := summarizes.metrics
    rw [Summary.considered, if_pos trimmed] at computed ⊢
    rwa [runsAt_congr agrees.runs]
  representatives := summarizes.representatives

/-- Trimming changes the gate and the numbers of the metrics only, and nothing where no run is
stable. Where outliers are trimmed, the summary is that of any dataset with the same names, medians
and stable runs. -/
theorem trimming_exact (config : Config) (metrics : List Metric) (dataset : Dataset) :
    (dataset.runs = [] → ∀ trim, Summary.ofDataset (config.withTrimming trim) metrics dataset =
      .error (.emptyDataset dataset.name)) ∧
    (dataset.runs ≠ [] → dataset.Recorded → (∀ metric ∈ metrics, metric.Answers) →
      ∀ trim, ∃ summary, Summary.ofDataset (config.withTrimming trim) metrics dataset =
        .ok summary) ∧
    (∀ on off, Summary.ofDataset (config.withTrimming true) metrics dataset = .ok on →
      Summary.ofDataset (config.withTrimming false) metrics dataset = .ok off →
      on = { off with trimmed := !on.stable.isEmpty, metrics := on.metrics } ∧
        off.trimmed = false ∧
        on.metrics.map MetricSummary.shape = off.metrics.map MetricSummary.shape) ∧
    (∀ trim summary, Summary.ofDataset (config.withTrimming trim) metrics dataset = .ok summary →
      summary.stable = [] → ∀ other,
        Summary.ofDataset (config.withTrimming other) metrics dataset = .ok summary) ∧
    ∀ summary, Summary.ofDataset config metrics dataset = .ok summary → summary.trimmed = true →
      ∀ other, dataset.AgreesAt summary.stable other →
        Summary.ofDataset config metrics other = .ok summary := by
  simp only [Summary.ofDataset_eq_ok_iff]
  refine ⟨?_, ?_, ?_, ?_, ?_⟩
  · intro empty trim
    exact Summary.ofDataset_of_empty _ metrics empty
  · intro present recorded answer trim
    rcases Summary.exists_of_recorded recorded present answer (config.withTrimming trim) with
      ⟨summary, made⟩
    exact ⟨summary, Summary.ofDataset_eq_ok_iff.mp made⟩
  · intro on off onSummarizes offSummarizes
    have gate : on.trimmed = !on.stable.isEmpty := onSummarizes.trimmed
    have same := onSummarizes.of_withTrimming offSummarizes
    rw [gate] at same
    refine ⟨same, offSummarizes.trimmed, ?_⟩
    rw [map_shape_of_mapM onSummarizes.metrics, map_shape_of_mapM offSummarizes.metrics]
    rfl
  · intro trim summary summarizes unstable other
    exact summarizes.withTrimming_of_unstable unstable other
  · intro summary summarizes trimmed other agrees
    exact summarizes.of_agreesAt trimmed agrees

/-- The dataset with a first run that did worse in all but its percentiles. -/
def Dataset.withSlowerStart (dataset : Dataset) : Dataset :=
  { dataset with runs := dataset.runs.modify 0 fun run =>
      { run with stats := { run.stats with average := 1000, missed := 100, missedScore := 1e12 } } }

theorem trimming_exact_of_slower_start :
    ∃ summary,
      Summary.ofDataset {} Metric.standard (.ofMilliseconds [[10], [20], [30]]) = .ok summary ∧
      Summary.ofDataset {} Metric.standard
        (Dataset.ofMilliseconds [[10], [20], [30]]).withSlowerStart = .ok summary ∧
      ∃ untrimmed, Summary.ofDataset { trimOutliers := false } Metric.standard
          (.ofMilliseconds [[10], [20], [30]]) = .ok untrimmed ∧
        untrimmed.stable = summary.stable ∧
      ∃ unstable,
        Summary.ofDataset {} Metric.standard (.ofMilliseconds [[16], [16]]) = .ok unstable ∧
        Summary.ofDataset { trimOutliers := false } Metric.standard
          (.ofMilliseconds [[16], [16]]) = .ok unstable := by
  let dataset := Dataset.ofMilliseconds [[10], [20], [30]]
  have present : dataset.runs ≠ [] := List.ne_nil_of_length_pos (by decide +kernel)
  have recorded : dataset.Recorded := Dataset.recorded_ofMilliseconds (by decide) (by decide)
  rcases trimming_exact {} Metric.standard dataset with ⟨-, succeeds, flag, -, hidden⟩
  rcases succeeds present recorded Metric.answers_standard true with ⟨summary, made⟩
  rcases succeeds present recorded Metric.answers_standard false with ⟨untrimmed, alsoMade⟩
  have summarizes := Summary.ofDataset_eq_ok_iff.mp made
  let refs := dataset.runs.mapIdx fun index run => run.ref index
  have sorted : rankRefs dataset.runs = refs := by
    apply List.mergeSort_of_pairwise
    decide +kernel
  have band : summary.band = ⟨11, 29⟩ := by
    have bounded := summarizes.band
    have medians : refs.map RunRef.median = [10, 20, 30] := by decide +kernel
    have bounds : Band.ofMedians [10, 20, 30] = .ok ⟨11, 29⟩ := by decide +kernel
    rw [summarizes.ranked, sorted, medians, bounds] at bounded
    exact (Except.ok.inj bounded).symm
  have stable : summary.stable.map RunRef.index = [1] := by
    rw [summarizes.stable, summarizes.ranked, sorted, band]
    decide +kernel
  have trimmed : summary.trimmed = true := by
    rw [summarizes.trimmed, ← List.isEmpty_map (f := RunRef.index), stable]
    rfl
  refine ⟨summary, made, hidden summary made trimmed dataset.withSlowerStart ?_, untrimmed, alsoMade,
    ?_, ?_⟩
  · refine ⟨rfl, rfl, by decide +kernel, ?_⟩
    intro ref member
    have second : ref.index = 1 := by
      have inside := List.mem_map_of_mem (f := RunRef.index) member
      rwa [stable, List.mem_singleton] at inside
    rw [second]
    decide +kernel
  · rw [(flag summary untrimmed made alsoMade).1]
  · let two := Dataset.ofMilliseconds [[16], [16]]
    have count : two.runs.length = 2 := by decide +kernel
    have twoRecorded : two.Recorded := Dataset.recorded_ofMilliseconds (by decide) (by decide)
    rcases trimming_exact {} Metric.standard two with ⟨-, twoSucceeds, -, unstableSame, -⟩
    rcases twoSucceeds (List.ne_nil_of_length_pos (by omega)) twoRecorded Metric.answers_standard true
      with ⟨unstable, unstableMade⟩
    have few := (Summary.ofDataset_eq_ok_iff.mp unstableMade).length_stable twoRecorded
    rw [count] at few
    have none := List.eq_nil_of_length_eq_zero (Nat.le_zero.mp few)
    exact ⟨unstable, unstableMade, unstableSame true unstable unstableMade none false⟩

end FrameTiming

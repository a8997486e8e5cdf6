import FrameTiming.Document
import FrameTiming.Proofs.LogText
import FrameTiming.Proofs.Machine
import FrameTiming.Proofs.RunBounds
import FrameTiming.Proofs.Spread
import FrameTiming.Proofs.StableBand

/-! # Finite summaries

The summary of runs from accepted logs has no NaN, and but for one number no infinity: the spread of
missed scores squares squares of times in single precision. It is finite as long as the scores are
so small that their squares can be added up there. None of this depends on the order in which a
variance adds them.
-/

namespace FrameTiming

open Host (Machine)
open Number

/-! ## Datasets of accepted logs -/

/-- A dataset of runs of accepted logs, no more than a word counts. -/
structure Dataset.Logged (config : Config) (dataset : Dataset) : Prop where
  sized : dataset.runs.length ≤ 2 ^ 64
  runs : ∀ run ∈ dataset.runs, run.Logged config

theorem Dataset.Logged.recorded {config : Config} {dataset : Dataset}
    (logged : dataset.Logged config) : dataset.Recorded where
  sized := logged.sized
  runs run member := (logged.runs run member).recorded

/-- What is loaded from files is such a dataset, if a word counts the files and their frames. -/
theorem Dataset.logged_of_load {machine after : Machine} {config : Config} {name : String}
    {paths : List Path} {dataset : Dataset}
    (loaded : (load config name paths : StateM Machine Dataset).run machine = (dataset, after))
    (sized : paths.length ≤ 2 ^ 64)
    (counted : ∀ path ∈ paths, ∀ content recorded, machine.openFile path = .ok (.bytes content) →
      FrameLog.parse config.logFormat path content = .ok recorded → recorded.length ≤ 2 ^ 64) :
    dataset.Logged config where
  sized := by
    rw [run_load] at loaded
    rw [← (Prod.mk.inj loaded).1]
    refine (List.length_filterMap_le _ _).trans ?_
    rwa [List.length_map]
  runs run member := by
    rcases read_of_mem_load loaded member with ⟨path, inPaths, read⟩
    rcases readRun_eq_ok read with ⟨content, recorded, source, opened, accepted, -, analysed⟩
    exact ⟨path, content, recorded, _, source, accepted,
      counted path inPaths content recorded opened accepted, analysed⟩

/-! ## Numbers of a summary -/

/-- The number of a series, where there is one. -/
def SeriesValues.number? (values : SeriesValues) : Series → Option Float
  | .average => some values.average
  | .median => some values.median
  | .p90 => some values.p90
  | .p95 => some values.p95
  | .missedFrames => some values.missedFrames
  | .missedScore => values.missedScore?
  | .timeInState => values.timeInState?

/-- Both bounds are finite and so is every number of every metric. -/
structure Summary.Finite (summary : Summary) : Prop where
  low : summary.band.low.isFinite = true
  high : summary.band.high.isFinite = true
  numbers : ∀ reduced ∈ summary.metrics, ∀ series number,
    reduced.values.number? series = some number → number.isFinite = true

/-- A number of a reduced metric is what the metric makes of the series. -/
theorem MetricSummary.reduce_of_number? {config : Config} {runs : List Run} {metric : Metric}
    {reduced : MetricSummary} (made : MetricSummary.ofRuns config runs metric = .ok reduced)
    {series : Series} {number : Float} (found : reduced.values.number? series = some number) :
    reduced.metric = metric.name ∧ metric.reduce (runs.map series.ofRun) = .ok number ∧
      (series = .missedScore → config.missedScore = true) := by
  have present : ∀ {wanted : Bool} {series : Series} {result : Option Float},
      (if wanted then (metric.reduce (runs.map series.ofRun)).map some else .ok none) =
        .ok result → result = some number →
          metric.reduce (runs.map series.ofRun) = .ok number ∧ wanted = true := by
    intro wanted series result computed same
    subst same
    cases wanted with
    | false => cases computed
    | true =>
        rcases map_eq_ok_iff.mp computed with ⟨other, reduced, same⟩
        cases same
        exact ⟨reduced, rfl⟩
  simp only [MetricSummary.ofRuns, bind_eq_ok_iff] at made
  rcases made with ⟨average, averageFound, median, medianFound, p90, p90Found, p95, p95Found,
    missed, missedFound, score?, scoreFound, time?, timeFound, same⟩
  cases same
  cases series with
  | average => cases found; exact ⟨rfl, averageFound, nofun⟩
  | median => cases found; exact ⟨rfl, medianFound, nofun⟩
  | p90 => cases found; exact ⟨rfl, p90Found, nofun⟩
  | p95 => cases found; exact ⟨rfl, p95Found, nofun⟩
  | missedFrames => cases found; exact ⟨rfl, missedFound, nofun⟩
  | missedScore =>
      rcases present scoreFound found with ⟨reduced, wanted⟩
      exact ⟨rfl, reduced, fun _ => wanted⟩
  | timeInState => exact ⟨rfl, (present timeFound found).1, nofun⟩

theorem Summarizes.median_finite {config : Config} {metrics : List Metric} {dataset : Dataset}
    {summary : Summary} (summarizes : Summarizes config metrics dataset summary)
    (recorded : dataset.Recorded) : ∀ ref ∈ summary.ranked, ref.median.isFinite = true := by
  intro ref member
  rw [summarizes.ranked] at member
  exact (median_spec_of_mem_rankRefs recorded member).2

/-! ## Documents -/

mutual

/-- A value is null somewhere, or has a number that there is none for. -/
def Json.holdsNull : Json → Bool
  | .null => true
  | .float value => !value.isFinite
  | .array elements => elementsHoldNull elements
  | .object members => membersHoldNull members
  | _ => false

def Json.elementsHoldNull : List Json → Bool
  | [] => false
  | element :: rest => element.holdsNull || elementsHoldNull rest

def Json.membersHoldNull : List (String × Json) → Bool
  | [] => false
  | (_, value) :: rest => value.holdsNull || membersHoldNull rest

end

namespace Json

theorem elementsHoldNull_eq_false {elements : List Json} :
    elementsHoldNull elements = false ↔ ∀ element ∈ elements, element.holdsNull = false := by
  induction elements with
  | nil => simp [elementsHoldNull]
  | cons element rest induction => simp [elementsHoldNull, induction]

theorem membersHoldNull_eq_false {members : List (String × Json)} :
    membersHoldNull members = false ↔ ∀ member ∈ members, member.2.holdsNull = false := by
  induction members with
  | nil => simp [membersHoldNull]
  | cons member rest induction => simp [membersHoldNull, induction]

end Json

theorem RunRef.holdsNull_toJson {ref : RunRef} (finite : ref.median.isFinite = true) :
    ref.toJson.holdsNull = false := by
  simp [toJson, Json.holdsNull, Json.membersHoldNull, finite]

theorem SeriesValues.holdsNull_toJson {values : SeriesValues} : values.toJson.holdsNull = false ↔
    ∀ series number, values.number? series = some number → number.isFinite = true := by
  have members : values.toJson.holdsNull = false ↔ values.average.isFinite = true ∧
      values.median.isFinite = true ∧ values.p90.isFinite = true ∧ values.p95.isFinite = true ∧
      values.missedFrames.isFinite = true ∧
      (∀ number, values.missedScore? = some number → number.isFinite = true) ∧
      ∀ number, values.timeInState? = some number → number.isFinite = true := by
    simp [toJson, Json.holdsNull, Json.membersHoldNull_eq_false, or_imp, forall_and]
  rw [members]
  constructor
  · rintro ⟨average, median, p90, p95, missed, score, time⟩ series number found
    cases series with
    | average => rwa [← Option.some.inj found]
    | median => rwa [← Option.some.inj found]
    | p90 => rwa [← Option.some.inj found]
    | p95 => rwa [← Option.some.inj found]
    | missedFrames => rwa [← Option.some.inj found]
    | missedScore => exact score number found
    | timeInState => exact time number found
  · intro finite
    exact ⟨finite .average _ rfl, finite .median _ rfl, finite .p90 _ rfl, finite .p95 _ rfl,
      finite .missedFrames _ rfl, finite .missedScore, finite .timeInState⟩

theorem MetricSummary.holdsNull_toJson (reduced : MetricSummary) :
    reduced.toJson.holdsNull = reduced.values.toJson.holdsNull := by
  simp [toJson, Json.holdsNull, Json.membersHoldNull]

/-- The JSON of a summary has no null exactly if the summary is finite, since all medians are. -/
theorem Summarizes.holdsNull_toJson {config : Config} {metrics : List Metric} {dataset : Dataset}
    {summary : Summary} (summarizes : Summarizes config metrics dataset summary)
    (recorded : dataset.Recorded) : summary.toJson.holdsNull = false ↔ summary.Finite := by
  have ranked : ∀ ref ∈ summary.ranked, ref.toJson.holdsNull = false :=
    fun ref member => RunRef.holdsNull_toJson (summarizes.median_finite recorded ref member)
  have stable : ∀ ref ∈ summary.stable, ref.toJson.holdsNull = false :=
    fun ref member => ranked ref (summarizes.mem_stable_iff.mp member).1
  rcases Representatives.select?_eq_some summarizes.representatives with ⟨low, median, high⟩
  have representatives : summary.representatives.toJson.holdsNull = false := by
    simp [Representatives.toJson, Json.holdsNull, Json.membersHoldNull,
      ranked _ (List.mem_of_getElem? low), ranked _ (List.mem_of_getElem? median),
      ranked _ (List.mem_of_getElem? high)]
  have rankedRefs := Json.elementsHoldNull_eq_false.mpr (List.forall_mem_map.mpr ranked)
  have stableRefs := Json.elementsHoldNull_eq_false.mpr (List.forall_mem_map.mpr stable)
  have members : summary.toJson.holdsNull = false ↔ summary.band.low.isFinite = true ∧
      summary.band.high.isFinite = true ∧
      ∀ reduced ∈ summary.metrics, reduced.toJson.holdsNull = false := by
    simp [Summary.toJson, Json.holdsNull, Json.membersHoldNull, rankedRefs, stableRefs,
      representatives, Json.elementsHoldNull_eq_false]
  simp only [members, MetricSummary.holdsNull_toJson, SeriesValues.holdsNull_toJson]
  exact ⟨fun ⟨low, high, numbers⟩ => ⟨low, high, numbers⟩,
    fun finite => ⟨finite.low, finite.high, finite.numbers⟩⟩

/-! ## Summaries of accepted logs -/

section Logged

variable {config : Config} {dataset : Dataset} {summary : Summary} {reduced : MetricSummary}
  {series : Series} {number : Float} {power : ℕ} {variance : List Float32 → Float32}
  (logged : dataset.Logged config)
  (summarizes : Summarizes config (Metric.standardWith variance) dataset summary)
include logged summarizes

theorem Summarizes.band_finite :
    summary.band.low.isFinite = true ∧ summary.band.high.isFinite = true := by
  rcases summarizes.band_spec logged.recorded with
    ⟨smallest, smallestInside, largest, largestInside, -, above, between, below⟩
  have least := summarizes.median_finite logged.recorded smallest smallestInside
  have most := summarizes.median_finite logged.recorded largest largestInside
  exact ⟨isFinite_of_between least most above (ordered_trans between below),
    isFinite_of_between least most (ordered_trans above between) below⟩

theorem Summarizes.runs_spec : (runsAt dataset.runs summary.considered).length =
      summary.considered.length ∧ 0 < summary.considered.length ∧
    summary.considered.length ≤ 2 ^ 64 ∧
    ∀ run ∈ runsAt dataset.runs summary.considered, run.Logged config := by
  rcases summarizes.considered_spec with ⟨ranked, nonempty⟩
  refine ⟨length_runsAt ranked, List.length_pos_of_ne_nil nonempty, ?_, ?_⟩
  · exact (ranked.length_le.trans (length_rankRefs dataset.runs).le).trans logged.sized
  · intro run inside
    rcases List.mem_filterMap.mp inside with ⟨ref, -, found⟩
    exact logged.runs run (List.mem_of_getElem? found)

variable (population : Metric.PopulationVariance variance)
include population

theorem Summarizes.number_spec (member : reduced ∈ summary.metrics)
    (found : reduced.values.number? series = some number) (low : power ≤ 900)
    (each : ∀ run ∈ runsAt dataset.runs summary.considered, UpTo power (series.ofRun run)) :
    number.isNaN = false ∧ ((reduced.metric = (Metric.standardDeviation variance).name →
      Metric.SquaresFit summary.considered.length power) → number.isFinite = true) := by
  rcases summarizes.runs_spec logged with ⟨count, several, sized, -⟩
  rcases exists_of_mem_mapM summarizes.metrics member with ⟨metric, standard, made⟩
  rcases MetricSummary.reduce_of_number? made found with ⟨name, computed, -⟩
  rw [name, ← count]
  rw [← count] at several sized
  have spec := Metric.standard_spec population standard
    (by simpa using List.ne_nil_of_length_pos several) (by simpa using sized) low
    (List.forall_mem_map.mpr each) computed
  rwa [List.length_map] at spec

variable (valid : config.validate = .ok ())
include valid

/-- No number is NaN, and only a spread can be infinite. -/
theorem Summarizes.number_finite_of_ne (member : reduced ∈ summary.metrics)
    (found : reduced.values.number? series = some number) : number.isNaN = false ∧
      (reduced.metric ≠ (Metric.standardDeviation variance).name → number.isFinite = true) := by
  rcases summarizes.runs_spec logged with ⟨-, -, -, runs⟩
  have small : series.power ≤ 900 := by cases series <;> decide
  have spec := summarizes.number_spec logged population member found small fun run inside =>
    (runs run inside).upTo_series valid series
  exact ⟨spec.1, fun other => spec.2 fun same => absurd same other⟩

variable (few : dataset.runs.length ≤ 2 ^ 47)
include few

/-- Numbers of all series but one are so small that their squares can be added up. -/
theorem Summarizes.number_finite (member : reduced ∈ summary.metrics)
    (found : reduced.values.number? series = some number) (different : series ≠ .missedScore) :
    number.isFinite = true := by
  rcases summarizes.runs_spec logged with ⟨-, -, -, runs⟩
  have small : series.power ≤ 28 := by
    cases series with
    | missedScore => exact absurd rfl different
    | _ => decide
  have considered := summarizes.considered_spec.1.length_le.trans (length_rankRefs _).le
  exact (summarizes.number_spec logged population member found (by omega) fun run inside =>
    (runs run inside).upTo_series valid series).2 fun _ =>
      Metric.squaresFit_of_le (considered.trans few) small

theorem Summarizes.finite_of_fits (fits : Metric.SquaresFit summary.considered.length power)
    (scores : config.missedScore = true → ∀ run ∈ runsAt dataset.runs summary.considered,
      value run.stats.missedScore ≤ 2 ^ power) : summary.Finite := by
  rcases summarizes.band_finite logged with ⟨low, high⟩
  refine ⟨low, high, ?_⟩
  intro reduced member series number found
  rcases summarizes.runs_spec logged with ⟨-, several, -, runs⟩
  by_cases different : series = .missedScore
  · subst different
    rcases exists_of_mem_mapM summarizes.metrics member with ⟨metric, -, made⟩
    have wanted := (MetricSummary.reduce_of_number? made found).2.2 rfl
    have small := fits.slack_lt several
    refine (summarizes.number_spec logged population member found (by omega) ?_).2 fun _ => fits
    intro run inside
    have score := (runs run inside).upTo_series valid .missedScore
    exact ⟨score.finite, score.least, scores wanted run inside⟩
  · exact summarizes.number_finite logged population valid few member found different

end Logged

/-- A dataset of runs of accepted logs has a summary whose bounds are finite, whatever order the
variance adds in. No number of it is NaN, and only a spread can be infinite; with up to `2 ^ 47` runs
only that of the missed scores. It is finite, too, and nothing in the JSON of the summary is null,
where the squares of the scores can be added up in single precision: for two runs scores up to
`2 ^ 63`. -/
theorem summary_finite {variance : List Float32 → Float32}
    (population : Metric.PopulationVariance variance) {config : Config} {dataset : Dataset}
    (valid : config.validate = .ok ()) (logged : dataset.Logged config)
    (present : dataset.runs ≠ []) :
    ∃ summary, Summary.ofDataset config (Metric.standardWith variance) dataset = .ok summary ∧
      (summary.band.low.isFinite = true ∧ summary.band.high.isFinite = true) ∧
      (∀ reduced ∈ summary.metrics, ∀ series number, reduced.values.number? series = some number →
        number.isNaN = false ∧ (reduced.metric ≠ (Metric.standardDeviation variance).name →
          number.isFinite = true)) ∧
      (dataset.runs.length ≤ 2 ^ 47 →
        (∀ reduced ∈ summary.metrics, ∀ series number, reduced.values.number? series = some number →
          series ≠ .missedScore → number.isFinite = true) ∧
        ∀ power, Metric.SquaresFit summary.considered.length power →
          (config.missedScore = true → ∀ run ∈ runsAt dataset.runs summary.considered,
            value run.stats.missedScore ≤ 2 ^ power) →
          summary.Finite ∧ summary.toJson.holdsNull = false) := by
  rcases Summary.exists_of_recorded logged.recorded present (Metric.answers_standardWith variance)
    config with ⟨summary, made⟩
  have summarizes := Summary.ofDataset_eq_ok_iff.mp made
  refine ⟨summary, made, summarizes.band_finite logged, ?_, fun few => ⟨?_, ?_⟩⟩
  · intro reduced member series number found
    exact summarizes.number_finite_of_ne logged population valid member found
  · intro reduced member series number found
    exact summarizes.number_finite logged population valid few member found
  · intro power fits scores
    have finite := summarizes.finite_of_fits logged population valid few fits scores
    exact ⟨finite, (summarizes.holdsNull_toJson logged.recorded).mpr finite⟩

theorem Dataset.logged_ofMilliseconds {recordings : List (List UInt64)}
    (sized : recordings.length ≤ 2 ^ 64) (counted : ∀ times ∈ recordings, times.length ≤ 2 ^ 64)
    (short : ∀ times ∈ recordings,
      totalDuration (times.map fun time => ⟨time * 1000000, none⟩) ≤ recordingLimit) :
    (ofMilliseconds recordings).Logged {} := by
  constructor
  case sized => exact (recorded_ofMilliseconds sized counted).sized
  case runs =>
    intro run member
    rcases List.mem_filterMap.mp member with ⟨entry, inside, made⟩
    rcases List.mem_map.mp inside with ⟨times, listed, rfl⟩
    refine ⟨⟨"game/run.csv"⟩, _, _, "game/run.csv", ⟨"game/run.csv"⟩,
      FrameLog.parse_text _ (short times listed), ?_, ?_⟩
    · rw [List.length_map, List.length_map]
      exact counted times listed
    · rw [List.map_map]
      dsimp only at made
      change Run.ofFrames {} "game/run.csv" ⟨"game/run.csv"⟩
        (times.map fun time => ⟨time * 1000000, none⟩) = _
      generalize Run.ofFrames _ _ _ _ = outcome at made ⊢
      cases outcome with
      | error error => cases made
      | ok analysed => exact congrArg Except.ok (Option.some.inj made)

theorem summary_finite_of_smooth :
    ∃ summary, Summary.ofDataset {} Metric.standard (.ofMilliseconds [[16], [20]]) = .ok summary ∧
      summary.Finite ∧ summary.toJson.holdsNull = false := by
  let dataset := Dataset.ofMilliseconds [[16], [20]]
  have valid : ({} : Config).validate = .ok () := by decide +kernel
  have logged : dataset.Logged {} :=
    Dataset.logged_ofMilliseconds (by decide) (by decide) (by decide)
  have count : dataset.runs.length = 2 := by decide +kernel
  have present : dataset.runs ≠ [] := List.ne_nil_of_length_pos (by omega)
  have small : ∀ run ∈ dataset.runs, run.stats.missedScore ≤ Float.ofNat (2 ^ 51) := by
    decide +kernel
  rcases summary_finite Metric.populationVariance_sequential valid logged present with
    ⟨summary, made, -, -, finite⟩
  have considered := (Summary.ofDataset_eq_ok_iff.mp made).considered_spec.1.length_le
  rw [length_rankRefs] at considered
  have few : summary.considered.length ≤ 2 := considered.trans count.le
  have fits : Metric.SquaresFit 2 51 := (Metric.squaresFit_iff (by decide)).mpr (by decide)
  refine ⟨summary, made, (finite (by omega)).2 51 (fits.mono few le_rfl) ?_⟩
  intro _ run inside
  rcases List.mem_filterMap.mp inside with ⟨ref, -, found⟩
  have order := small run (List.mem_of_getElem? found)
  rw [le_iff_value_le (comparable_of_le order).1 (comparable_of_le order).2,
    value_ofNat_of_le (by norm_num)] at order
  exact_mod_cast order

/-- The deviations of the scores of a run of 16 ms and one that stalls for 10 s. -/
theorem deviations_of_stall : Metric.deviations
    ((Dataset.ofMilliseconds [[16], [10000]]).runs.map Series.missedScore.ofRun) =
      [-49833473368947425280, 49833473368947425280] := by
  decide +kernel

/-- They cancel out, and the square of each is too large for single precision. -/
theorem overflowed_of_stall {variance : List Float32 → Float32}
    (population : Metric.PopulationVariance variance) :
    Overflowed (variance [-49833473368947425280, 49833473368947425280]) := by
  let height : ℚ := (11330820 : ℕ) * 2 ^ (42 : ℤ)
  have small : |height| < 2 ^ 128 := by norm_num [height]
  have below : Single (-49833473368947425280) (-height) :=
    .finite .negative 11330820 42 (by decide) (by decide)
  have above : Single 49833473368947425280 height :=
    .finite .positive 11330820 42 (by decide) (by decide)
  have large : ∀ deviation ∈ ([-49833473368947425280, 49833473368947425280] : List Float32),
      Overflowed (deviation * deviation) := by
    intro deviation member
    simp only [List.mem_cons, List.not_mem_nil, or_false] at member
    rcases member with rfl | rfl <;> rfl
  exact population.overflowed (List.cons_ne_nil _ _) (by norm_num) large
    (.cons below (.cons above .nil)) (by simp)
    fun part inside => rounded_sum_of_opposite above.rounded_eq small inside

/-- A run of 16 ms and one that stalls for 10 s: the squares of their scores are too large, in
whatever order the variance adds. -/
theorem summary_infinite_of_stall :
    ({} : Config).validate = .ok () ∧ (Dataset.ofMilliseconds [[16], [10000]]).Logged {} ∧
    Metric.PopulationVariance Metric.sequentialVariance ∧
    ∀ variance, Metric.PopulationVariance variance →
      ∃ summary, Summary.ofDataset {} (Metric.standardWith variance)
          (.ofMilliseconds [[16], [10000]]) = .ok summary ∧
        ∃ reduced ∈ summary.metrics, reduced.metric = "Standard deviation" ∧
          ∃ spread, reduced.values.missedScore? = some spread ∧ spread.isFinite = false ∧
            summary.toJson.holdsNull = true := by
  let dataset := Dataset.ofMilliseconds [[16], [10000]]
  have valid : ({} : Config).validate = .ok () := by decide +kernel
  have logged : dataset.Logged {} :=
    Dataset.logged_ofMilliseconds (by decide) (by decide) (by decide)
  have count : dataset.runs.length = 2 := by decide +kernel
  refine ⟨valid, logged, Metric.populationVariance_sequential, fun variance population => ?_⟩
  rcases Summary.exists_of_recorded logged.recorded (List.ne_nil_of_length_pos (by omega))
    (Metric.answers_standardWith variance) {} with ⟨summary, made⟩
  have summarizes := Summary.ofDataset_eq_ok_iff.mp made
  have seen : runsAt dataset.runs summary.considered = dataset.runs := by
    have few := summarizes.length_stable logged.recorded
    rw [count] at few
    have unstable := List.eq_nil_of_length_eq_zero (Nat.le_zero.mp few)
    have untrimmed : summary.trimmed = false := by
      rw [summarizes.trimmed, unstable]
      rfl
    let refs := dataset.runs.mapIdx fun index run => run.ref index
    have sorted : rankRefs dataset.runs = refs := by
      apply List.mergeSort_of_pairwise
      decide +kernel
    rw [Summary.considered, untrimmed, if_neg Bool.false_ne_true, summarizes.ranked, sorted]
    decide +kernel
  have computed := summarizes.metrics
  rw [seen] at computed
  rcases exists_mem_of_mapM computed
    (show Metric.standardDeviation variance ∈ Metric.standardWith variance by
      simp [Metric.standardWith]) with ⟨reduced, member, reducedMade⟩
  let scores := dataset.runs.map Series.missedScore.ofRun
  have values : reduced.metric = "Standard deviation" ∧
      reduced.values.missedScore? = some (Metric.spread variance scores) := by
    cases reducedMade
    exact ⟨rfl, rfl⟩
  have infinite : (Metric.spread variance scores).isFinite = false := by
    apply Metric.not_isFinite_spread
    · exact List.ne_nil_of_length_pos (by rw [List.length_map]; omega)
    · rw [deviations_of_stall]
      exact overflowed_of_stall population
  refine ⟨summary, made, reduced, member, values.1, _, values.2, infinite, ?_⟩
  by_contra written
  rw [Bool.not_eq_true, summarizes.holdsNull_toJson logged.recorded] at written
  have finite := written.numbers reduced member .missedScore _ values.2
  rw [infinite] at finite
  cases finite

end FrameTiming

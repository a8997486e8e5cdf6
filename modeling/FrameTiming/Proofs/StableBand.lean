import FrameTiming.Proofs.Ranking
import FrameTiming.Proofs.RunNumbers

/-! # The stable band

The bounds of the band are percentiles of the medians that it is about, so they lie between the
smallest and the largest median, whose runs are never inside. The runs inside follow each other in
the ranking.
-/

namespace FrameTiming

open Number

/-! ## Datasets and metrics -/

/-- A dataset of runs as the program makes them, no more than a word counts. -/
structure Dataset.Recorded (dataset : Dataset) : Prop where
  sized : dataset.runs.length ≤ 2 ^ 64
  runs : ∀ run ∈ dataset.runs, run.Recorded

/-- A metric that reduces any numbers which runs may have. -/
def Metric.Answers (metric : Metric) : Prop :=
  ∀ values : List Float, values ≠ [] → values.length ≤ 2 ^ 64 → (∀ number ∈ values, 0 ≤ number) →
    ∃ result, metric.reduce values = .ok result

theorem Metric.noise_succeeds {values : List Float} (present : values ≠ [])
    (sized : values.length ≤ 2 ^ 64) (least : ∀ number ∈ values, 0 ≤ number) :
    ∃ result, Metric.noise values = .ok result := by
  have comparable : ∀ number ∈ values, number.isNaN = false :=
    fun number member => (zero_le_iff.mp (least number member)).1
  have percentile : ∀ index < percentileCount, ∃ result,
      Percentile.ofValues values (Float.ofNat index) = .ok (some result) := by
    intro index within
    exact Percentile.ofValues_succeeds present sized comparable (value_ofNat index).2
      (zero_le_iff.mp (zero_le_ofNat index)).2 (value_ofNat_lt_hundred within)
  rcases percentile 5 (by decide) with ⟨low, lowFound⟩
  rcases percentile 95 (by decide) with ⟨high, highFound⟩
  have five : (5 : Float) = Float.ofNat 5 := rfl
  have ninetyFive : (95 : Float) = Float.ofNat 95 := rfl
  rw [noise, five, ninetyFive, lowFound, highFound]
  exact ⟨_, rfl⟩

theorem Metric.answers_standardWith (variance : List Float32 → Float32) :
    ∀ metric ∈ Metric.standardWith variance, metric.Answers := by
  intro metric member values present sized least
  simp only [standardWith, List.mem_cons, List.not_mem_nil, or_false] at member
  rcases member with rfl | rfl | rfl | rfl
  · exact ⟨_, rfl⟩
  · exact ⟨_, rfl⟩
  · exact ⟨_, rfl⟩
  · exact noise_succeeds present sized least

theorem Metric.answers_standard : ∀ metric ∈ Metric.standard, metric.Answers :=
  answers_standardWith sequentialVariance

theorem MetricSummary.ofRuns_succeeds {metric : Metric} (answers : metric.Answers) (config : Config)
    {runs : List Run} (present : runs ≠ []) (sized : runs.length ≤ 2 ^ 64)
    (recorded : ∀ run ∈ runs, run.Recorded) :
    ∃ reduced, MetricSummary.ofRuns config runs metric = .ok reduced := by
  have reduced : ∀ series : Series, ∃ result, metric.reduce (runs.map series.ofRun) = .ok result := by
    intro series
    apply answers
    · simpa using present
    · simpa using sized
    · intro number member
      rcases List.mem_map.mp member with ⟨run, inside, rfl⟩
      exact (recorded run inside).zero_le_series series
  choose result found using reduced
  unfold MetricSummary.ofRuns
  simp only [found]
  cases config.missedScore <;> cases config.withState <;> exact ⟨_, rfl⟩

/-! ## Medians -/

section Medians

variable {runs : List Run}

theorem Representatives.select?_succeeds {ranked : List RunRef} (present : ranked ≠ []) :
    ∃ representatives, select? ranked = some representatives := by
  have count := List.length_pos_of_ne_nil present
  have within : ∀ percentile, rankIndex percentile ranked.length < ranked.length := by
    intro percentile
    exact (Nat.min_le_right _ _).trans_lt (Nat.sub_lt count one_pos)
  have middle : ranked.length / 2 < ranked.length := Nat.div_lt_self count (by decide)
  simp [select?, within, middle]

theorem Representatives.select?_eq_some {ranked : List RunRef} {representatives : Representatives}
    (selected : select? ranked = some representatives) :
    ranked[rankIndex 5 ranked.length]? = some representatives.low ∧
      ranked[ranked.length / 2]? = some representatives.median ∧
      ranked[rankIndex 95 ranked.length]? = some representatives.high := by
  unfold select? at selected
  simp only [Option.bind_eq_bind, Option.bind_eq_some_iff, Option.pure_def, Option.some.injEq]
    at selected
  rcases selected with ⟨low, lowFound, median, medianFound, high, highFound, rfl⟩
  exact ⟨lowFound, medianFound, highFound⟩

/-- The band of finite medians lies between the smallest and the largest. -/
theorem Band.ofMedians_spec {medians : List Float} (present : medians ≠ [])
    (sized : medians.length ≤ 2 ^ 64) (finite : ∀ median ∈ medians, median.isFinite = true) :
    ∃ band, Band.ofMedians (sortAscending medians) = .ok band ∧
      ∃ smallest ∈ medians, ∃ largest ∈ medians,
        (∀ median ∈ medians, smallest ≤ median ∧ median ≤ largest) ∧
        smallest ≤ band.low ∧ band.low ≤ band.high ∧ band.high ≤ largest := by
  have ascending := Percentile.ascending_sortAscending present sized finite
  rcases Percentile.exists_bounds ascending with
    ⟨smallest, smallestMember, largest, largestMember, bounds, first, last⟩
  have five : value (Float.ofNat 5) = (5 : ℕ) := Percentile.value_count (by norm_num)
  have ninetyFive : value (Float.ofNat 95) = (95 : ℕ) := Percentile.value_count (by norm_num)
  rcases Percentile.ofSorted_ordered ascending first last (value_ofNat 5).2 (value_ofNat 95).2
    (by rw [five]; norm_num) (by rw [five, ninetyFive]; norm_num) (by rw [ninetyFive]; norm_num)
    (.inl (by rw [ninetyFive]; norm_num)) with
    ⟨low, high, lowFound, highFound, aboveSmallest, between, belowLargest⟩
  refine ⟨⟨low, high⟩, ?_, smallest, smallestMember, largest, largestMember, bounds, aboveSmallest,
    between, belowLargest⟩
  have lowAgain : Percentile.ofSorted (sortAscending medians).toArray 5 = .ok (some low) := lowFound
  have highAgain : Percentile.ofSorted (sortAscending medians).toArray 95 = .ok (some high) :=
    highFound
  rw [ofMedians, lowAgain, highAgain]
  rfl

theorem Percentile.exists_of_ofSorted_eq_ok {sorted : Array Float} {percentile : Float}
    {result? : Option Float} (present : 0 < sorted.size)
    (found : ofSorted sorted percentile = .ok result?) : ∃ result, result? = some result := by
  unfold ofSorted at found
  split at found
  · rw [Array.getElem?_eq_getElem present] at found
    cases found
    exact ⟨_, rfl⟩
  · dsimp only at found
    split at found
    · split at found
      · cases found
        exact ⟨_, rfl⟩
      · rcases map_eq_ok_iff.mp found with ⟨result, -, rfl⟩
        exact ⟨result, rfl⟩
    · cases found

/-- The bounds of a band are percentiles of its medians. -/
theorem Band.percentiles_of_ofMedians {medians : List Float} {band : Band} (present : medians ≠ [])
    (bounded : Band.ofMedians medians = .ok band) :
    Percentile.ofSorted medians.toArray 5 = .ok (some band.low) ∧
      Percentile.ofSorted medians.toArray 95 = .ok (some band.high) := by
  have filled : 0 < medians.toArray.size := List.length_pos_of_ne_nil present
  rcases bind_eq_ok_iff.mp bounded with ⟨low?, lowFound, others⟩
  rcases bind_eq_ok_iff.mp others with ⟨high?, highFound, same⟩
  rcases Percentile.exists_of_ofSorted_eq_ok filled lowFound with ⟨low, rfl⟩
  rcases Percentile.exists_of_ofSorted_eq_ok filled highFound with ⟨high, rfl⟩
  cases same
  exact ⟨lowFound, highFound⟩

end Medians

/-! ## Splitting by a band -/

/-- In a list that ascends past two bounds, the elements between them follow each other. -/
theorem exists_append_filter {α : Type} {above below : α → Bool} {values : List α}
    (ascending : values.Pairwise fun first second =>
      (above first → above second) ∧ (below second → below first)) :
    ∃ before after, values = before ++ values.filter (fun value => above value && below value) ++ after ∧
      (∀ value ∈ before, above value = false) ∧ ∀ value ∈ after, below value = false := by
  induction values with
  | nil => exact ⟨[], [], rfl, by simp, by simp⟩
  | cons first rest induction =>
      rw [List.pairwise_cons] at ascending
      rcases induction ascending.2 with ⟨before, after, split, notAbove, notBelow⟩
      by_cases firstAbove : above first = true
      · by_cases firstBelow : below first = true
        · -- All that follow are above too, so none stands before the elements between.
          have none : before = [] := by
            apply List.eq_nil_iff_forall_not_mem.mpr
            intro value member
            have inside : value ∈ rest := by
              rw [split]
              simp [member]
            have raised := (ascending.1 value inside).1 firstAbove
            rw [notAbove value member] at raised
            cases raised
          rw [none, List.nil_append] at split
          refine ⟨[], after, ?_, by simp, notBelow⟩
          rw [List.filter_cons_of_pos (by simp [firstAbove, firstBelow]), List.nil_append,
            List.cons_append, ← split]
        · have none : rest.filter (fun value => above value && below value) = [] := by
            apply List.filter_eq_nil_iff.mpr
            intro value inside between
            rw [Bool.and_eq_true] at between
            exact firstBelow ((ascending.1 value inside).2 between.2)
          refine ⟨[], first :: rest, ?_, by simp, ?_⟩
          · rw [List.filter_cons_of_neg (by simp [firstBelow]), none]
            rfl
          · rw [List.forall_mem_cons]
            refine ⟨by simpa using firstBelow, ?_⟩
            intro value inside
            by_contra still
            exact firstBelow ((ascending.1 value inside).2 (by simpa using still))
      · refine ⟨first :: before, after, ?_, ?_, notBelow⟩
        · rw [List.filter_cons_of_neg (by simp [firstAbove]), List.cons_append, List.cons_append,
            ← split]
        · rw [List.forall_mem_cons]
          exact ⟨by simpa using firstAbove, notAbove⟩

/-! ## Summaries -/

section Summaries

variable {config : Config} {metrics : List Metric} {dataset : Dataset} {summary : Summary}

theorem median_spec_of_mem_rankRefs (recorded : dataset.Recorded) {ref : RunRef}
    (member : ref ∈ rankRefs dataset.runs) :
    Signless ref.median ∧ ref.median.isFinite = true := by
  rcases mem_rankRefs.mp member with ⟨run, found, same⟩
  rw [same]
  exact (recorded.runs run (List.mem_of_getElem? found)).median_spec

theorem band_spec_of_recorded (recorded : dataset.Recorded) (present : dataset.runs ≠ []) :
    ∃ band, Band.ofMedians ((rankRefs dataset.runs).map RunRef.median) = .ok band ∧
      ∃ smallest ∈ rankRefs dataset.runs, ∃ largest ∈ rankRefs dataset.runs,
        (∀ ref ∈ rankRefs dataset.runs,
          smallest.median ≤ ref.median ∧ ref.median ≤ largest.median) ∧
        smallest.median ≤ band.low ∧ band.low ≤ band.high ∧ band.high ≤ largest.median := by
  have members : ∀ median, median ∈ dataset.runs.map (fun run => run.stats.median) ↔
      ∃ ref ∈ rankRefs dataset.runs, ref.median = median := by
    intro median
    rw [← List.mem_map, map_median_rankRefs, (sortAscending_perm _).mem_iff]
  have nonempty : dataset.runs.map (fun run => run.stats.median) ≠ [] := by simpa using present
  have word : (dataset.runs.map fun run => run.stats.median).length ≤ 2 ^ 64 := by
    simpa using recorded.sized
  have finite : ∀ median ∈ dataset.runs.map (fun run => run.stats.median),
      median.isFinite = true := by
    intro median member
    rcases (members median).mp member with ⟨ref, inside, rfl⟩
    exact (median_spec_of_mem_rankRefs recorded inside).2
  rcases Band.ofMedians_spec nonempty word finite with
    ⟨band, bounded, _, smallestMember, _, largestMember, bounds, ordered⟩
  rcases (members _).mp smallestMember with ⟨smallest, smallestInside, rfl⟩
  rcases (members _).mp largestMember with ⟨largest, largestInside, rfl⟩
  rw [map_median_rankRefs]
  refine ⟨band, bounded, smallest, smallestInside, largest, largestInside, ?_, ordered⟩
  intro ref inside
  exact bounds ref.median ((members _).mpr ⟨ref, inside, rfl⟩)

/-- The metrics see some ranked runs. -/
theorem Summary.considered_spec (stable : summary.stable.Sublist summary.ranked)
    (gated : summary.trimmed = true → summary.stable ≠ []) (filled : summary.ranked ≠ []) :
    summary.considered.Sublist summary.ranked ∧ summary.considered ≠ [] := by
  unfold considered
  split_ifs with trimmed
  · exact ⟨stable, gated trimmed⟩
  · exact ⟨List.Sublist.refl _, filled⟩

theorem length_runsAt {refs : List RunRef} (ranked : refs.Sublist (rankRefs dataset.runs)) :
    (runsAt dataset.runs refs).length = refs.length := by
  have found := congrArg List.length (map_some_runsAt fun _ member => ranked.subset member)
  simpa only [List.length_map] using found

/-- A dataset with runs has a summary under metrics that answer. -/
theorem Summary.exists_of_recorded (recorded : dataset.Recorded) (present : dataset.runs ≠ [])
    (answer : ∀ metric ∈ metrics, metric.Answers) (config : Config) :
    ∃ summary, Summary.ofDataset config metrics dataset = .ok summary := by
  have filled := rankRefs_ne_nil present
  rcases Representatives.select?_succeeds filled with ⟨representatives, selected⟩
  rcases band_spec_of_recorded recorded present with ⟨band, bounded, -⟩
  let stable := (rankRefs dataset.runs).filter fun ref => band.contains ref.median
  let summaryOf (reduced : List MetricSummary) : Summary := {
    dataset := dataset.name, runCount := dataset.runs.length
    failureCount := dataset.failures.length, ranked := rankRefs dataset.runs
    band, stable, trimmed := config.trimOutliers && !stable.isEmpty
    metrics := reduced, representatives }
  have gated : (summaryOf []).trimmed = true → stable ≠ [] := by
    intro trimmed empty
    have none : stable.isEmpty = true := by rw [empty]; rfl
    simp [summaryOf, none] at trimmed
  rcases Summary.considered_spec (List.filter_sublist : stable.Sublist (summaryOf []).ranked) gated
    filled with ⟨ranked, nonempty⟩
  have seen : ∀ metric ∈ metrics, ∃ reduced, MetricSummary.ofRuns config
      (runsAt dataset.runs (summaryOf []).considered) metric = .ok reduced := by
    intro metric member
    apply MetricSummary.ofRuns_succeeds (answer metric member)
    · rw [← List.length_pos_iff, length_runsAt ranked]
      exact List.length_pos_of_ne_nil nonempty
    · rw [length_runsAt ranked]
      refine ranked.length_le.trans ?_
      exact (length_rankRefs dataset.runs).trans_le recorded.sized
    · intro run inside
      rcases List.mem_filterMap.mp inside with ⟨ref, -, found⟩
      exact recorded.runs run (List.mem_of_getElem? found)
  rcases mapM_succeeds seen with ⟨reduced, computed⟩
  refine ⟨summaryOf reduced, Summary.ofDataset_eq_ok_iff.mpr ?_⟩
  exact ⟨rfl, rfl, rfl, rfl, bounded, rfl, rfl, computed, selected⟩

theorem Summarizes.runs_ne_nil (summarizes : Summarizes config metrics dataset summary) :
    dataset.runs ≠ [] := by
  intro empty
  have selected := summarizes.representatives
  rw [summarizes.ranked, empty] at selected
  simp [rankRefs, Representatives.select?] at selected

variable (recorded : dataset.Recorded) (summarizes : Summarizes config metrics dataset summary)
include recorded summarizes

/-- The band lies between the smallest and the largest median. -/
theorem Summarizes.band_spec : ∃ smallest ∈ summary.ranked, ∃ largest ∈ summary.ranked,
    (∀ ref ∈ summary.ranked, smallest.median ≤ ref.median ∧ ref.median ≤ largest.median) ∧
      smallest.median ≤ summary.band.low ∧ summary.band.low ≤ summary.band.high ∧
        summary.band.high ≤ largest.median := by
  rcases band_spec_of_recorded recorded summarizes.runs_ne_nil with ⟨band, bounded, spec⟩
  have same := summarizes.band
  rw [summarizes.ranked, bounded, Except.ok.injEq] at same
  rwa [summarizes.ranked, ← same]

/-- Medians ascend in the ranking, and where they tie, positions do. -/
theorem Summarizes.ascending : summary.ranked.Pairwise fun first second =>
    first.median ≤ second.median ∧ (second.median ≤ first.median → first.index < second.index) := by
  have sorted := pairwise_rankRefs dataset.runs
  rw [summarizes.ranked]
  refine sorted.imp_of_mem ?_
  intro first second firstInside secondInside inOrder
  have firstSignless := (median_spec_of_mem_rankRefs recorded firstInside).1
  have secondSignless := (median_spec_of_mem_rankRefs recorded secondInside).1
  rw [firstSignless.totalLe_iff secondSignless, secondSignless.totalLe_iff firstSignless] at inOrder
  exact inOrder

/-- Runs before the stable ones are not above the band, those behind are not below it. -/
theorem Summarizes.exists_split : ∃ before after,
    summary.ranked = before ++ summary.stable ++ after ∧
      (∀ ref ∈ before, ref.median ≤ summary.band.low) ∧
        ∀ ref ∈ after, summary.band.high ≤ ref.median := by
  have comparable : ∀ ref ∈ summary.ranked, ref.median.isNaN = false := by
    rw [summarizes.ranked]
    exact fun ref member => isNaN_of_isFinite (median_spec_of_mem_rankRefs recorded member).2
  have monotone : summary.ranked.Pairwise fun first second =>
      (decide (summary.band.low < first.median) → decide (summary.band.low < second.median)) ∧
        (decide (second.median < summary.band.high) →
          decide (first.median < summary.band.high)) := by
    refine (summarizes.ascending recorded).imp ?_
    intro first second inOrder
    simp only [decide_eq_true_eq]
    exact ⟨fun above => lt_of_lt_of_ordered above inOrder.1, lt_of_ordered_of_lt inOrder.1⟩
  rcases exists_append_filter monotone with ⟨before, after, split, notAbove, notBelow⟩
  have same : summary.stable = summary.ranked.filter fun ref =>
      decide (summary.band.low < ref.median) && decide (ref.median < summary.band.high) :=
    summarizes.stable
  rw [← same] at split
  rcases summarizes.band_spec recorded with ⟨smallest, -, largest, -, -, aboveSmallest, -, belowLargest⟩
  refine ⟨before, after, split, ?_, ?_⟩
  · intro ref member
    have inside : ref ∈ summary.ranked := by
      rw [split]
      simp [member]
    exact ordered_of_not_lt (comparable_of_le aboveSmallest).2 (comparable ref inside)
      (of_decide_eq_false (notAbove ref member))
  · intro ref member
    have inside : ref ∈ summary.ranked := by
      rw [split]
      simp [member]
    exact ordered_of_not_lt (comparable ref inside) (comparable_of_le belowLargest).1
      (of_decide_eq_false (notBelow ref member))

omit recorded

/-- Outliers are told from stable runs by their positions, which no two ranked runs share. -/
theorem Summarizes.outliers_eq {before after : List RunRef}
    (split : summary.ranked = before ++ summary.stable ++ after) :
    summary.outliers = before ++ after ∧
      ∀ outlier ∈ before ++ after, ∀ ref ∈ summary.stable, outlier.index ≠ ref.index := by
  have distinct := nodup_map_index_rankRefs dataset.runs
  rw [← summarizes.ranked, split, List.map_append, List.map_append, List.nodup_append,
    List.nodup_append] at distinct
  rcases distinct with ⟨⟨-, -, beforeApart⟩, -, afterApart⟩
  have apart : ∀ outlier ∈ before ++ after, ∀ ref ∈ summary.stable, outlier.index ≠ ref.index := by
    intro outlier outside ref inside
    rcases List.mem_append.mp outside with early | late
    · exact beforeApart _ (List.mem_map_of_mem early) _ (List.mem_map_of_mem inside)
    · exact (afterApart _ (List.mem_append_right _ (List.mem_map_of_mem inside)) _
        (List.mem_map_of_mem late)).symm
  refine ⟨?_, apart⟩
  have dropped : summary.stable.filter
      (fun ref => !summary.stable.any fun stable => stable.index = ref.index) = [] := by
    apply List.filter_eq_nil_iff.mpr
    intro ref inside
    simp only [Bool.not_eq_true', Bool.not_eq_false, List.any_eq_true, decide_eq_true_eq]
    exact ⟨ref, inside, rfl⟩
  have kept : ∀ outside : List RunRef, outside ⊆ before ++ after → outside.filter
      (fun ref => !summary.stable.any fun stable => stable.index = ref.index) = outside := by
    intro outside within
    apply List.filter_eq_self.mpr
    intro outlier member
    simp only [Bool.not_eq_true', List.any_eq_false, decide_eq_true_eq]
    exact fun ref inside => (apart outlier (within member) ref inside).symm
  rw [Summary.outliers, split, List.filter_append, List.filter_append, dropped,
    kept before (List.subset_append_left _ _), kept after (List.subset_append_right _ _),
    List.append_nil]

theorem Summarizes.mem_stable_iff {ref : RunRef} : ref ∈ summary.stable ↔
    ref ∈ summary.ranked ∧ summary.band.low < ref.median ∧ ref.median < summary.band.high := by
  rw [summarizes.stable, List.mem_filter, Band.contains, Bool.and_eq_true, decide_eq_true_eq,
    decide_eq_true_eq]

theorem Summarizes.considered_spec :
    summary.considered.Sublist (rankRefs dataset.runs) ∧ summary.considered ≠ [] := by
  have stableRanked : summary.stable.Sublist summary.ranked := by
    rw [summarizes.stable]
    exact List.filter_sublist
  have gated : summary.trimmed = true → summary.stable ≠ [] := by
    rw [summarizes.trimmed, Bool.and_eq_true, Bool.not_eq_true', List.isEmpty_eq_false_iff]
    exact And.right
  have filled : summary.ranked ≠ [] := by
    apply List.ne_nil_of_length_pos
    rw [summarizes.ranked, length_rankRefs]
    exact List.length_pos_of_ne_nil summarizes.runs_ne_nil
  rw [← summarizes.ranked]
  exact Summary.considered_spec stableRanked gated filled

include recorded

/-- A stable run has a faster one before the stable ones and a slower one behind them. -/
theorem Summarizes.length_stable : summary.stable.length ≤ dataset.runs.length - 2 := by
  by_cases empty : summary.stable = []
  · rw [empty]
    exact Nat.zero_le _
  · rcases summarizes.exists_split recorded with ⟨before, after, split, notAbove, notBelow⟩
    rcases summarizes.band_spec recorded with
      ⟨smallest, smallestInside, largest, largestInside, -, aboveSmallest, -, belowLargest⟩
    rcases List.exists_mem_of_ne_nil _ empty with ⟨ref, stable⟩
    have inside := (summarizes.mem_stable_iff.mp stable).2
    have bounds := lt_of_lt_of_ordered inside.1 (ordered_of_lt inside.2)
    rw [split, List.mem_append, List.mem_append] at smallestInside largestInside
    have early : smallest ∈ before := by
      rcases smallestInside with (early | alsoStable) | late
      · exact early
      · exact absurd aboveSmallest (not_ordered_of_lt (summarizes.mem_stable_iff.mp alsoStable).2.1)
      · exact absurd ((ordered_trans (notBelow _ late) aboveSmallest)) (not_ordered_of_lt bounds)
    have late : largest ∈ after := by
      rcases largestInside with (early | alsoStable) | late
      · exact absurd ((ordered_trans belowLargest (notAbove _ early))) (not_ordered_of_lt bounds)
      · exact absurd belowLargest (not_ordered_of_lt (summarizes.mem_stable_iff.mp alsoStable).2.2)
      · exact late
    have count := congrArg List.length split
    rw [summarizes.ranked, length_rankRefs, List.length_append, List.length_append] at count
    have some := List.length_pos_of_mem early
    have others := List.length_pos_of_mem late
    omega

end Summaries

/-- Every dataset with runs has a summary. It ranks each run once, by ascending median and then by
position; the band goes from the 5th to the 95th percentile of the medians and lies within them; the
stable runs are a block of the ranking, without the fastest and the slowest runs, and the outliers
are the rest of it; and the metrics see some runs. -/
theorem ranking_exact (config : Config) (metrics : List Metric) (dataset : Dataset)
    (present : dataset.runs ≠ []) (recorded : dataset.Recorded) :
    ((∀ metric ∈ metrics, metric.Answers) →
      ∃ summary, Summary.ofDataset config metrics dataset = .ok summary) ∧
    ∀ summary, Summary.ofDataset config metrics dataset = .ok summary →
      (summary.ranked.map RunRef.index).Perm (List.range dataset.runs.length) ∧
      (∀ ref ∈ summary.ranked, ∃ run, dataset.runs[ref.index]? = some run ∧
        ref.name = run.name ∧ ref.median = run.stats.median) ∧
      (summary.ranked.Pairwise fun first second => first.median ≤ second.median ∧
        (second.median ≤ first.median → first.index < second.index)) ∧
      (Percentile.ofSorted (summary.ranked.map RunRef.median).toArray 5 =
          .ok (some summary.band.low) ∧
        Percentile.ofSorted (summary.ranked.map RunRef.median).toArray 95 =
          .ok (some summary.band.high)) ∧
      (∃ smallest ∈ dataset.runs, ∃ largest ∈ dataset.runs,
        (∀ run ∈ dataset.runs, smallest.stats.median ≤ run.stats.median ∧
          run.stats.median ≤ largest.stats.median) ∧
        smallest.stats.median ≤ summary.band.low ∧ summary.band.low ≤ summary.band.high ∧
        summary.band.high ≤ largest.stats.median ∧
        ∀ ref ∈ summary.stable, smallest.stats.median < ref.median ∧
          ref.median < largest.stats.median) ∧
      (∀ ref, ref ∈ summary.stable ↔ ref ∈ summary.ranked ∧
        summary.band.low < ref.median ∧ ref.median < summary.band.high) ∧
      (∃ before after, summary.ranked = before ++ summary.stable ++ after ∧
        (∀ ref ∈ before, ref.median ≤ summary.band.low) ∧
        (∀ ref ∈ after, summary.band.high ≤ ref.median) ∧
        summary.outliers = before ++ after) ∧
      (∀ outlier ∈ summary.outliers, ∀ ref ∈ summary.stable, outlier.index ≠ ref.index) ∧
      summary.stable.length ≤ dataset.runs.length - 2 ∧
      ∃ seen, seen ≠ [] ∧
        seen.map some = summary.considered.map (fun ref => dataset.runs[ref.index]?) ∧
        metrics.mapM (MetricSummary.ofRuns config seen) = .ok summary.metrics := by
  refine ⟨fun answer => Summary.exists_of_recorded recorded present answer config, ?_⟩
  intro summary made
  have summarizes := Summary.ofDataset_eq_ok_iff.mp made
  have refers : ∀ ref ∈ summary.ranked, ∃ run, dataset.runs[ref.index]? = some run ∧
      ref.name = run.name ∧ ref.median = run.stats.median := by
    intro ref member
    rw [summarizes.ranked] at member
    rcases mem_rankRefs.mp member with ⟨run, found, same⟩
    refine ⟨run, found, ?_, ?_⟩ <;> rw [same] <;> rfl
  have referred : ∀ run ∈ dataset.runs, ∃ ref ∈ summary.ranked, ref.median = run.stats.median := by
    intro run member
    rcases List.mem_iff_getElem?.mp member with ⟨index, found⟩
    refine ⟨run.ref index, ?_, rfl⟩
    rw [summarizes.ranked]
    exact mem_rankRefs.mpr ⟨run, found, rfl⟩
  rcases summarizes.exists_split recorded with ⟨before, after, split, notAbove, notBelow⟩
  rcases summarizes.outliers_eq split with ⟨outliers, apart⟩
  refine ⟨?_, refers, summarizes.ascending recorded, ?_, ?_, fun _ => summarizes.mem_stable_iff,
    ⟨before, after, split, notAbove, notBelow, outliers⟩, ?_, summarizes.length_stable recorded, ?_⟩
  · rw [summarizes.ranked]
    exact map_index_rankRefs_perm dataset.runs
  · apply Band.percentiles_of_ofMedians _ summarizes.band
    rw [summarizes.ranked, ne_eq, List.map_eq_nil_iff]
    exact rankRefs_ne_nil present
  · rcases summarizes.band_spec recorded with
      ⟨smallest, smallestInside, largest, largestInside, bounds, aboveSmallest, order, belowLargest⟩
    rcases refers smallest smallestInside with ⟨fastest, fastestFound, -, fastestMedian⟩
    rcases refers largest largestInside with ⟨slowest, slowestFound, -, slowestMedian⟩
    rw [fastestMedian] at aboveSmallest
    rw [slowestMedian] at belowLargest
    refine ⟨fastest, List.mem_of_getElem? fastestFound, slowest, List.mem_of_getElem? slowestFound,
      ?_, aboveSmallest, order, belowLargest, ?_⟩
    · intro run member
      rcases referred run member with ⟨ref, inside, same⟩
      rw [← fastestMedian, ← slowestMedian, ← same]
      exact bounds ref inside
    · intro ref stable
      have inside := (summarizes.mem_stable_iff.mp stable).2
      exact ⟨lt_of_ordered_of_lt aboveSmallest inside.1, lt_of_lt_of_ordered inside.2 belowLargest⟩
  · rw [outliers]
    exact apart
  · rcases summarizes.considered_spec with ⟨ranked, nonempty⟩
    refine ⟨runsAt dataset.runs summary.considered, ?_,
      map_some_runsAt fun _ member => ranked.subset member, summarizes.metrics⟩
    rw [← List.length_pos_iff, length_runsAt ranked]
    exact List.length_pos_of_ne_nil nonempty

/-- Runs of frames that are so many milliseconds long. -/
def Dataset.ofMilliseconds (recordings : List (List UInt64)) : Dataset :=
  ofOutcomes "game" <| recordings.map fun times => (⟨"game/run.csv"⟩,
    Run.ofFrames {} "game/run.csv" ⟨"game/run.csv"⟩ (times.map fun time => ⟨time * 1000000, none⟩))

theorem Dataset.recorded_ofMilliseconds {recordings : List (List UInt64)}
    (sized : recordings.length ≤ 2 ^ 64) (short : ∀ times ∈ recordings, times.length ≤ 2 ^ 64) :
    (ofMilliseconds recordings).Recorded := by
  constructor
  case sized =>
    refine (List.length_filterMap_le _ _).trans ?_
    rwa [List.length_map]
  case runs =>
    intro run member
    rcases List.mem_filterMap.mp member with ⟨entry, inside, made⟩
    rcases List.mem_map.mp inside with ⟨times, listed, rfl⟩
    refine ⟨{}, "game/run.csv", ⟨"game/run.csv"⟩, times.map fun time => ⟨time * 1000000, none⟩, ?_, ?_⟩
    · rw [List.length_map]
      exact short times listed
    · dsimp only at made
      generalize Run.ofFrames _ _ _ _ = outcome at made ⊢
      cases outcome with
      | error error => cases made
      | ok analysed => exact congrArg Except.ok (Option.some.inj made)

/-- The run of 20 ms is stable, the first one of its dataset and the second one of the ranking. -/
theorem ranking_exact_of_three :
    ∃ summary, Summary.ofDataset {} Metric.standard (.ofMilliseconds [[20], [30], [10]]) =
        .ok summary ∧
      (summary.ranked.map RunRef.index).Perm [0, 1, 2] ∧
      summary.ranked.map RunRef.median = [10, 20, 30] ∧ summary.band = ⟨11, 29⟩ ∧
      summary.stable.map RunRef.index = [0] := by
  let dataset := Dataset.ofMilliseconds [[20], [30], [10]]
  have count : dataset.runs.length = 3 := by decide +kernel
  have medians : dataset.runs.map (fun run => run.stats.median) = [20, 30, 10] := by decide +kernel
  have ranked := ranking_exact {} Metric.standard dataset (List.ne_nil_of_length_pos (by omega))
    (Dataset.recorded_ofMilliseconds (by decide) (by decide))
  rcases ranked.1 Metric.answers_standard with ⟨summary, made⟩
  rcases ranked.2 summary made with
    ⟨indices, refers, -, ⟨low, high⟩, -, stable, -, -, atMost, -⟩
  rw [count] at indices atMost
  have ascending : summary.ranked.map RunRef.median = [10, 20, 30] := by
    have order : ([20, 30, 10] : List Float).Perm [10, 20, 30] := by decide +kernel
    rw [(Summary.ofDataset_eq_ok_iff.mp made).ranked, map_median_rankRefs, medians,
      sortAscending_eq_of_perm order]
    exact List.mergeSort_of_pairwise (by decide +kernel)
  have band : summary.band = ⟨11, 29⟩ := by
    have five : Percentile.ofSorted #[10, 20, 30] 5 = .ok (some 11) := by decide +kernel
    have ninetyFive : Percentile.ofSorted #[10, 20, 30] 95 = .ok (some 29) := by decide +kernel
    rw [ascending] at low high
    have lowSame : 11 = summary.band.low := Option.some.inj (Except.ok.inj (five.symm.trans low))
    have highSame : 29 = summary.band.high :=
      Option.some.inj (Except.ok.inj (ninetyFive.symm.trans high))
    rw [lowSame, highSame]
  refine ⟨summary, made, indices, ascending, band, ?_⟩
  rcases List.mem_map.mp (indices.mem_iff.mpr (List.mem_range.mpr three_pos)) with
    ⟨first, inside, position⟩
  rcases refers first inside with ⟨run, found, -, median⟩
  have twenty : first.median = 20 := by
    have entry := congrArg (fun medians : List Float => medians[0]?) medians
    rw [position] at found
    simp only [List.getElem?_map, found, Option.map_some, List.getElem?_cons_zero,
      Option.some.injEq] at entry
    rw [median, entry]
  have between : first ∈ summary.stable := by
    rw [stable, band, twenty]
    exact ⟨inside, by decide +kernel, by decide +kernel⟩
  rcases List.length_eq_one_iff.mp (Nat.le_antisymm atMost (List.length_pos_of_mem between)) with
    ⟨only, same⟩
  rw [same, List.mem_singleton] at between
  rw [same, ← between, List.map_singleton, position]

end FrameTiming

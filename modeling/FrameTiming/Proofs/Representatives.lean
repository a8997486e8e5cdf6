import FrameTiming.Program.Analyze
import FrameTiming.Proofs.FailedLogs
import FrameTiming.Proofs.Number.Narrowed

/-! # Representative runs

Three runs represent a dataset, from the 5th percentile of the ranking, its middle and its 95th
percentile. A percentile lies where its share of the ranking says, but for rounding, which is far too
little to carry it past the middle however many runs there are.
-/

namespace FrameTiming

open Number

/-! ## Ranks -/

/-- The error of a product from the errors of its factors, one of them a share. -/
theorem abs_mul_sub_mul_le {share rounded last whole : ℚ} (least : 0 ≤ rounded)
    (most : rounded ≤ 1) (lastLeast : 0 ≤ last) :
    |rounded * whole - share * last| ≤ |whole - last| + |rounded - share| * last := by
  have parts : rounded * whole - share * last =
      rounded * (whole - last) + (rounded - share) * last := by ring
  rw [parts]
  refine (abs_add_le _ _).trans ?_
  rw [abs_mul, abs_mul, abs_of_nonneg least, abs_of_nonneg lastLeast]
  exact add_le_add_left (mul_le_of_le_one_left (abs_nonneg _) most) _

/-- Rounding moves the position of a percentile by no more than one part in `2 ^ 50` of all places
and of one more. -/
theorem Percentile.abs_position_sub_le {percentile : ℚ} (least : 0 ≤ percentile)
    (most : percentile ≤ 100) {count : ℕ} (sized : count ≤ 2 ^ 64) :
    |position percentile count - percentile / 100 * (count - 1 : ℕ)| ≤
      (count - 1 : ℕ) / 2 ^ 50 + 1 / 2 ^ 50 := by
  have shareLeast : 0 ≤ percentile / 100 := by positivity
  have shareMost : percentile / 100 ≤ 1 := by linarith
  have lastMost : ((count - 1 : ℕ) : ℚ) ≤ 2 ^ 64 := by
    exact_mod_cast (Nat.sub_le count 1).trans sized
  unfold position
  generalize percentile / 100 = share at shareLeast shareMost ⊢
  generalize count - 1 = last at lastMost ⊢
  have lastLeast : (0 : ℚ) ≤ last := by positivity
  have roundedLeast := nearest_nonneg shareLeast
  have roundedMost : nearest share ≤ 1 := by
    rw [← nearest_one]
    exact nearest_mono shareMost
  have wholeLeast := nearest_nonneg lastLeast
  have below : nearest share * nearest last ≤ nearest last :=
    mul_le_of_le_one_left wholeLeast roundedMost
  have shareError := (nearest_spec_of_word shareLeast (by linarith)).2
  rcases nearest_spec_of_word lastLeast lastMost with ⟨wholeMost, lastError⟩
  have productError := (nearest_spec_of_word (mul_nonneg roundedLeast wholeLeast)
    (below.trans wholeMost)).2
  have tiny : (2 : ℚ) ^ (-1075 : ℤ) ≤ 2 ^ (-60 : ℤ) :=
    zpow_le_zpow_right₀ (by norm_num) (by norm_num)
  generalize (2 : ℚ) ^ (-1075 : ℤ) = finest at tiny shareError lastError productError
  have factors : |nearest share * nearest last - share * last| ≤
      |nearest last - last| + |nearest share - share| * last :=
    abs_mul_sub_mul_le roundedLeast roundedMost lastLeast
  have shareMoved : |nearest share - share| * last ≤ last / 2 ^ 52 := by
    have small : |nearest share - share| ≤ 1 / 2 ^ 52 := by
      norm_num at tiny ⊢
      linarith
    linarith [mul_le_mul_of_nonneg_right small lastLeast]
  have wholeNear := (abs_le.mp lastError).2
  have triangle := abs_sub_le (nearest (nearest share * nearest last))
    (nearest share * nearest last) (share * last)
  norm_num at tiny shareMoved ⊢
  linarith

theorem rankIndex_eq {percentile : Float} (comparable : percentile.isNaN = false)
    (least : 0 ≤ value percentile) (below : value percentile < 100) {count : ℕ}
    (sized : count ≤ 2 ^ 64) :
    rankIndex percentile count =
      min ⌊Percentile.position (value percentile) count + 1 / 2⌋₊ (count - 1) := by
  rcases Percentile.value_rank comparable least below.le sized with ⟨rank, rankComparable⟩
  have nonnegative := Percentile.position_nonneg least count
  have within := Percentile.position_le_of_lt_hundred comparable least below count
  have word : ((count - 1 : ℕ) : ℚ) < 2 ^ 64 := by
    have smaller : count - 1 < 2 ^ 64 := by omega
    exact_mod_cast smaller
  rw [← rank] at nonnegative within
  rw [rankIndex, roundNat_eq rankComparable nonnegative (within.trans_lt word), rank]

/-- The representative ranks are in order. Each is next to its position, and rounding carries no
position past the middle. -/
theorem rankIndex_bounds {count : ℕ} (present : 0 < count) (sized : count ≤ 2 ^ 64) :
    rankIndex 5 count ≤ count / 2 ∧ count / 2 ≤ rankIndex 95 count ∧ rankIndex 95 count < count := by
  have five : value 5 = (5 : ℕ) := Percentile.value_count (by norm_num)
  have ninetyFive : value 95 = (95 : ℕ) := Percentile.value_count (by norm_num)
  rw [Nat.cast_ofNat] at five ninetyFive
  rw [rankIndex_eq rfl (by rw [five]; norm_num) (by rw [five]; norm_num) sized,
    rankIndex_eq rfl (by rw [ninetyFive]; norm_num) (by rw [ninetyFive]; norm_num) sized,
    five, ninetyFive]
  have low := (abs_le.mp (Percentile.abs_position_sub_le (show (0 : ℚ) ≤ 5 by norm_num)
    (by norm_num) sized)).2
  have high := (abs_le.mp (Percentile.abs_position_sub_le (show (0 : ℚ) ≤ 95 by norm_num)
    (by norm_num) sized)).1
  generalize Percentile.position 5 count = lowPosition at low ⊢
  generalize Percentile.position 95 count = highPosition at high ⊢
  rcases Nat.exists_eq_succ_of_ne_zero present.ne' with ⟨last, rfl⟩
  rw [Nat.succ_eq_add_one, Nat.add_sub_cancel] at low high ⊢
  have lastLeast : (0 : ℚ) ≤ last := by positivity
  have middle : ((last + 1) / 2 : ℕ) ≤ ((last : ℚ) + 1) / 2 := by
    exact_mod_cast (Nat.cast_div_le : (((last + 1) / 2 : ℕ) : ℚ) ≤ (last + 1 : ℕ) / (2 : ℕ))
  have aboveMiddle : (last : ℚ) ≤ 2 * ((last + 1) / 2 : ℕ) := by
    exact_mod_cast (show last ≤ 2 * ((last + 1) / 2) by omega)
  norm_num at low high
  refine ⟨min_le_of_left_le ?_, le_min ?_ (by omega), ?_⟩
  · rw [← Nat.lt_add_one_iff, Nat.floor_lt' (by omega)]
    push_cast at aboveMiddle ⊢
    linarith
  · apply Nat.le_floor
    rcases Nat.eq_zero_or_pos last with rfl | some
    · norm_num at high ⊢
      linarith
    · have one : (1 : ℚ) ≤ last := by exact_mod_cast some
      linarith
  · exact (Nat.min_le_right _ _).trans_lt (Nat.lt_add_one last)

/-- Halves go up at either end. -/
example : rankIndex 5 11 = 1 ∧ 11 / 2 = 5 ∧ rankIndex 95 11 = 10 := by decide +kernel

/-! ## Runs -/

/-- A reference tells the name and the median of the run at its index. -/
structure RunRef.Names (ref : RunRef) (dataset : Dataset) (run : Run) : Prop where
  within : ref.index < dataset.runs.length
  found : dataset.runs[ref.index]? = some run
  name : ref.name = run.name
  median : ref.median = run.stats.median

section Summaries

variable {config : Config} {metrics : List Metric} {dataset : Dataset} {summary : Summary}

theorem RunRef.exists_names_of_rank {rank : ℕ} {ref : RunRef}
    (found : (rankRefs dataset.runs)[rank]? = some ref) : ∃ run, ref.Names dataset run := by
  rcases mem_rankRefs.mp (List.mem_of_getElem? found) with ⟨run, there, same⟩
  refine ⟨run, (List.getElem?_eq_some_iff.mp there).1, there, ?_, ?_⟩ <;> rw [same] <;> rfl

variable (summarizes : Summarizes config metrics dataset summary)
include summarizes

theorem Summarizes.representatives_rank :
    summary.ranked[rankIndex 5 dataset.runs.length]? = some summary.representatives.low ∧
      summary.ranked[dataset.runs.length / 2]? = some summary.representatives.median ∧
      summary.ranked[rankIndex 95 dataset.runs.length]? = some summary.representatives.high := by
  have selected := Representatives.select?_eq_some summarizes.representatives
  have count : summary.ranked.length = dataset.runs.length := by
    rw [summarizes.ranked, length_rankRefs]
  rwa [count] at selected

/-- Later ranks have no smaller medians. -/
theorem Summarizes.median_le_of_rank_le (recorded : dataset.Recorded) {rank later : ℕ}
    (order : rank ≤ later) {ref other : RunRef} (found : summary.ranked[rank]? = some ref)
    (otherFound : summary.ranked[later]? = some other) : ref.median ≤ other.median := by
  rcases order.eq_or_lt with rfl | before
  · rw [found] at otherFound
    cases otherFound
    rw [summarizes.ranked] at found
    have finite := (median_spec_of_mem_rankRefs recorded (List.mem_of_getElem? found)).2
    have comparable := isNaN_of_isFinite finite
    exact (le_iff_value_le comparable comparable).mpr le_rfl
  · rcases List.getElem?_eq_some_iff.mp found with ⟨within, rfl⟩
    rcases List.getElem?_eq_some_iff.mp otherFound with ⟨otherWithin, rfl⟩
    have ascending := List.pairwise_iff_getElem.mp (summarizes.ascending recorded)
    exact (ascending rank later within otherWithin before).1

end Summaries

/-- Three runs of a dataset represent it, at ranks that are in order, and so are their medians. Each
of them is found by its reference, the one in the middle for the report as well. Only a dataset
without runs has no representatives, and it alone has no summary. -/
theorem representatives_ranked (config : Config) (metrics : List Metric) (dataset : Dataset) :
    (Summary.ofDataset config metrics dataset = .error (.emptyDataset dataset.name) ↔
      dataset.runs = []) ∧
    (dataset.Recorded → (∀ metric ∈ metrics, metric.Answers) →
      ((∃ error, Summary.ofDataset config metrics dataset = .error error) ↔ dataset.runs = [])) ∧
    ∀ summary, Summary.ofDataset config metrics dataset = .ok summary →
      let count := dataset.runs.length
      let representatives := summary.representatives
      (count ≤ 2 ^ 64 → rankIndex 5 count ≤ count / 2 ∧ count / 2 ≤ rankIndex 95 count ∧
        rankIndex 95 count < count) ∧
      (summary.ranked[rankIndex 5 count]? = some representatives.low ∧
        summary.ranked[count / 2]? = some representatives.median ∧
        summary.ranked[rankIndex 95 count]? = some representatives.high) ∧
      (dataset.Recorded → representatives.low.median ≤ representatives.median.median ∧
        representatives.median.median ≤ representatives.high.median) ∧
      ∃ low median high, Program.representativeRuns dataset summary = .ok (low, median, high) ∧
        representatives.low.Names dataset low ∧ representatives.median.Names dataset median ∧
        representatives.high.Names dataset high ∧
        Report.dataset dataset summary =
          Report.heading summary ++ "\n" ++ String.join (summary.metrics.map Report.metric) ++
            "\nMedian result:\n" ++ Report.run median := by
  have refused : Summary.ofDataset config metrics dataset = .error (.emptyDataset dataset.name) ↔
      dataset.runs = [] := by
    rw [Summary.ofDataset_eq_emptyDataset_iff, and_iff_left rfl]
  refine ⟨refused, ?_, ?_⟩
  · intro recorded answer
    constructor
    · intro failed
      by_contra present
      rcases Summary.exists_of_recorded recorded present answer config with ⟨summary, made⟩
      rcases failed with ⟨error, failed⟩
      rw [made] at failed
      cases failed
    · exact fun empty => ⟨_, refused.mpr empty⟩
  · intro summary made
    have summarizes := Summary.ofDataset_eq_ok_iff.mp made
    have present := List.length_pos_of_ne_nil summarizes.runs_ne_nil
    have ranks := summarizes.representatives_rank
    refine ⟨rankIndex_bounds present, ranks, ?_, ?_⟩
    · intro recorded
      rcases rankIndex_bounds present recorded.sized with ⟨lowFirst, highLast, -⟩
      exact ⟨summarizes.median_le_of_rank_le recorded lowFirst ranks.1 ranks.2.1,
        summarizes.median_le_of_rank_le recorded highLast ranks.2.1 ranks.2.2⟩
    · rw [summarizes.ranked] at ranks
      rcases RunRef.exists_names_of_rank ranks.1 with ⟨low, lowNames⟩
      rcases RunRef.exists_names_of_rank ranks.2.1 with ⟨median, medianNames⟩
      rcases RunRef.exists_names_of_rank ranks.2.2 with ⟨high, highNames⟩
      refine ⟨low, median, high, ?_, lowNames, medianNames, highNames, ?_⟩
      · simp only [Program.representativeRuns, lowNames.found, medianNames.found, highNames.found]
      · rw [Report.dataset, medianNames.found, Option.elim_some]

theorem representatives_ranked_of_four :
    (∃ summary, Summary.ofDataset {} Metric.standard (.ofMilliseconds [[20], [30], [10], [40]]) =
        .ok summary ∧
      summary.ranked[0]? = some summary.representatives.low ∧
      summary.ranked[2]? = some summary.representatives.median ∧
      summary.ranked[3]? = some summary.representatives.high ∧
      summary.representatives.low.median ≤ summary.representatives.median.median ∧
      summary.representatives.median.median ≤ summary.representatives.high.median) ∧
    Summary.ofDataset {} Metric.standard (.ofMilliseconds []) = .error (.emptyDataset "game") := by
  have recorded : (Dataset.ofMilliseconds [[20], [30], [10], [40]]).Recorded :=
    Dataset.recorded_ofMilliseconds (by decide) (by decide)
  have count : (Dataset.ofMilliseconds [[20], [30], [10], [40]]).runs.length = 4 := by
    decide +kernel
  have low : rankIndex 5 4 = 0 := by decide +kernel
  have high : rankIndex 95 4 = 3 := by decide +kernel
  constructor
  · rcases representatives_ranked {} Metric.standard (.ofMilliseconds [[20], [30], [10], [40]]) with
      ⟨-, fails, represented⟩
    cases made : Summary.ofDataset {} Metric.standard
        (Dataset.ofMilliseconds [[20], [30], [10], [40]]) with
    | error error =>
        have empty := (fails recorded Metric.answers_standard).mp ⟨error, made⟩
        rw [empty] at count
        cases count
    | ok summary =>
        rcases represented summary made with ⟨-, ranks, ordered, -⟩
        rw [count, low, high] at ranks
        exact ⟨summary, rfl, ranks.1, ranks.2.1, ranks.2.2, ordered recorded⟩
  · exact (representatives_ranked {} Metric.standard (.ofMilliseconds [])).1.mpr rfl

end FrameTiming

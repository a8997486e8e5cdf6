import FrameTiming.Proofs.StableBand
import Mathlib.Data.List.FinRange
import Mathlib.Data.List.Indexes
import Mathlib.Logic.Equiv.Fin.Basic

/-! # Summaries and the order of runs

The order in which runs were added to a dataset does not show in the medians of its summary. Where no
two medians are the same, it does not show anywhere but in the positions that refer to runs.
-/

namespace FrameTiming

open Number

/-! ## Other orders -/

/-- The runs of a dataset in another order: `order` tells where the run at a place comes from. -/
def Dataset.reordered (dataset : Dataset) (order : Equiv.Perm (Fin dataset.runs.length)) : Dataset :=
  { dataset with runs := List.ofFn fun place => dataset.runs[order place] }

/-- Where the run at a place comes from. Places without a run stay as they are. -/
def origin {count : ℕ} (order : Equiv.Perm (Fin count)) : Equiv.Perm ℕ :=
  order.extendDomain Fin.equivSubtype

section Reordered

variable {dataset : Dataset} (order : Equiv.Perm (Fin dataset.runs.length))

theorem origin_apply {count : ℕ} (order : Equiv.Perm (Fin count)) (place : Fin count) :
    origin order place = order place :=
  order.extendDomain_apply_image Fin.equivSubtype place

theorem origin_of_beyond {count : ℕ} (order : Equiv.Perm (Fin count)) {place : ℕ}
    (beyond : count ≤ place) : origin order place = place :=
  order.extendDomain_apply_not_subtype Fin.equivSubtype (Nat.not_lt.mpr beyond)

theorem length_reordered : (dataset.reordered order).runs.length = dataset.runs.length :=
  List.length_ofFn

theorem getElem?_reordered (place : ℕ) :
    (dataset.reordered order).runs[place]? = dataset.runs[origin order place]? := by
  by_cases within : place < dataset.runs.length
  · have inside : place < (dataset.reordered order).runs.length := by rwa [length_reordered]
    have target := origin_apply order ⟨place, within⟩
    dsimp only at target
    rw [target, List.getElem?_eq_getElem inside, List.getElem?_eq_getElem (order _).isLt]
    simp [Dataset.reordered]
  · have outside := Nat.not_lt.mp within
    rw [origin_of_beyond order outside, List.getElem?_eq_none outside, List.getElem?_eq_none]
    rwa [length_reordered]

theorem reordered_perm : (dataset.reordered order).runs.Perm dataset.runs := by
  have same := order.ofFn_comp_perm dataset.runs.get
  rwa [List.ofFn_get] at same

theorem Dataset.Recorded.reordered (recorded : dataset.Recorded) :
    (dataset.reordered order).Recorded where
  sized := (length_reordered order).trans_le recorded.sized
  runs run member := recorded.runs run ((reordered_perm order).mem_iff.mp member)

end Reordered

/-! ## Medians -/

theorem Representatives.select?_median {ranked : List RunRef} {representatives : Representatives}
    (selected : select? ranked = some representatives) :
    let medians := ranked.map RunRef.median
    medians[rankIndex 5 medians.length]? = some representatives.low.median ∧
      medians[medians.length / 2]? = some representatives.median.median ∧
      medians[rankIndex 95 medians.length]? = some representatives.high.median := by
  rcases select?_eq_some selected with ⟨low, median, high⟩
  simp [low, median, high]

/-- The medians of the runs, in any order, determine those in a summary. -/
theorem Summarizes.medians_eq {config : Config} {metrics : List Metric} {dataset other : Dataset}
    {summary otherSummary : Summary} (summarizes : Summarizes config metrics dataset summary)
    (otherSummarizes : Summarizes config metrics other otherSummary)
    (permuted : (other.runs.map fun run => run.stats.median).Perm
      (dataset.runs.map fun run => run.stats.median)) :
    otherSummary.ranked.map RunRef.median = summary.ranked.map RunRef.median ∧
      otherSummary.band = summary.band ∧
      otherSummary.stable.map RunRef.median = summary.stable.map RunRef.median ∧
      otherSummary.trimmed = summary.trimmed ∧
      otherSummary.representatives.low.median = summary.representatives.low.median ∧
      otherSummary.representatives.median.median = summary.representatives.median.median ∧
      otherSummary.representatives.high.median = summary.representatives.high.median := by
  have medians : otherSummary.ranked.map RunRef.median = summary.ranked.map RunRef.median := by
    rw [otherSummarizes.ranked, summarizes.ranked, map_median_rankRefs, map_median_rankRefs,
      sortAscending_eq_of_perm permuted]
  have band : otherSummary.band = summary.band := by
    have bounded := otherSummarizes.band
    rw [medians, summarizes.band] at bounded
    exact (Except.ok.inj bounded).symm
  have inside : ∀ (ranked : List RunRef) (band : Band),
      (ranked.filter fun ref => band.contains ref.median).map RunRef.median =
        (ranked.map RunRef.median).filter band.contains := by
    intro ranked band
    rw [List.filter_map]
    rfl
  have stable : otherSummary.stable.map RunRef.median = summary.stable.map RunRef.median := by
    rw [otherSummarizes.stable, summarizes.stable, inside, inside, medians, band]
  have trimmed : otherSummary.trimmed = summary.trimmed := by
    have empty := congrArg List.isEmpty stable
    rw [List.isEmpty_map, List.isEmpty_map] at empty
    rw [otherSummarizes.trimmed, summarizes.trimmed, empty]
  rcases Representatives.select?_median summarizes.representatives with ⟨low, median, high⟩
  rcases Representatives.select?_median otherSummarizes.representatives with
    ⟨otherLow, otherMedian, otherHigh⟩
  rw [medians] at otherLow otherMedian otherHigh
  exact ⟨medians, band, stable, trimmed, Option.some.inj (otherLow.symm.trans low),
    Option.some.inj (otherMedian.symm.trans median), Option.some.inj (otherHigh.symm.trans high)⟩

/-! ## Positions -/

def RunRef.renumber (number : ℕ → ℕ) (ref : RunRef) : RunRef :=
  { ref with index := number ref.index }

def Representatives.renumber (number : ℕ → ℕ) (representatives : Representatives) :
    Representatives where
  low := representatives.low.renumber number
  median := representatives.median.renumber number
  high := representatives.high.renumber number

/-- The summary with other positions for the runs that it refers to. -/
def Summary.renumber (number : ℕ → ℕ) (summary : Summary) : Summary :=
  { summary with
    ranked := summary.ranked.map (RunRef.renumber number)
    stable := summary.stable.map (RunRef.renumber number)
    representatives := summary.representatives.renumber number }

section Renumbered

variable {number : ℕ → ℕ}

theorem map_median_renumber (refs : List RunRef) :
    (refs.map (RunRef.renumber number)).map RunRef.median = refs.map RunRef.median := by
  rw [List.map_map]
  rfl

theorem filter_renumber (band : Band) (refs : List RunRef) :
    (refs.map (RunRef.renumber number)).filter (fun ref => band.contains ref.median) =
      (refs.filter fun ref => band.contains ref.median).map (RunRef.renumber number) := by
  rw [List.filter_map]
  rfl

theorem Representatives.select?_renumber (ranked : List RunRef) :
    select? (ranked.map (RunRef.renumber number)) =
      (select? ranked).map (Representatives.renumber number) := by
  unfold select?
  rw [List.length_map, List.getElem?_map, List.getElem?_map, List.getElem?_map]
  cases ranked[rankIndex 5 ranked.length]? <;> cases ranked[ranked.length / 2]? <;>
    cases ranked[rankIndex 95 ranked.length]? <;> rfl

theorem Summary.considered_renumber (summary : Summary) :
    (summary.renumber number).considered = summary.considered.map (RunRef.renumber number) := by
  unfold considered
  cases trimmed : summary.trimmed <;> simp [Summary.renumber, trimmed]

theorem RunRef.renumber_injective (injective : Function.Injective number) :
    Function.Injective (RunRef.renumber number) := by
  intro ref other same
  rcases RunRef.mk.inj same with ⟨index, name, median⟩
  exact (RunRef.mk.injEq ..).mpr ⟨injective index, name, median⟩

theorem Representatives.renumber_injective (injective : Function.Injective number) :
    Function.Injective (Representatives.renumber number) := by
  intro representatives other same
  have refs := RunRef.renumber_injective injective
  rcases Representatives.mk.inj same with ⟨low, median, high⟩
  exact (Representatives.mk.injEq ..).mpr ⟨refs low, refs median, refs high⟩

end Renumbered

section Distinct

variable {config : Config} {metrics : List Metric} {dataset : Dataset} {summary : Summary}
  (order : Equiv.Perm (Fin dataset.runs.length))

theorem runsAt_reordered (refs : List RunRef) :
    runsAt dataset.runs (refs.map (RunRef.renumber (origin order))) =
      runsAt (dataset.reordered order).runs refs := by
  rw [runsAt, List.filterMap_map]
  exact List.filterMap_congr fun ref _ => (getElem?_reordered order ref.index).symm

/-- The same runs are referred to, wherever they stand. -/
theorem map_renumber_rankRefs_perm :
    ((rankRefs (dataset.reordered order).runs).map (RunRef.renumber (origin order))).Perm
      (rankRefs dataset.runs) := by
  have references := order.ofFn_comp_perm fun place => dataset.runs[place].ref place
  have renumbered : ((dataset.reordered order).runs.mapIdx fun place run => run.ref place).map
      (RunRef.renumber (origin order)) =
        List.ofFn fun place => dataset.runs[order place].ref (order place) := by
    apply List.ext_getElem
    · simp [length_reordered]
    · intro place within alsoWithin
      rw [List.length_ofFn] at alsoWithin
      have target := origin_apply order ⟨place, alsoWithin⟩
      dsimp only at target
      simp [Dataset.reordered, RunRef.renumber, Run.ref, target]
  have ranked := (rankRefs_perm (dataset.reordered order).runs).map (RunRef.renumber (origin order))
  rw [renumbered] at ranked
  refine ranked.trans (references.trans ?_)
  have listed : List.ofFn (fun place : Fin dataset.runs.length => dataset.runs[place].ref place) =
      dataset.runs.mapIdx fun place run => run.ref place := by
    rw [List.mapIdx_eq_ofFn]
    rfl
  rw [listed]
  exact (rankRefs_perm dataset.runs).symm

/-- Medians that differ leave only one ranking. -/
theorem map_renumber_rankRefs (distinct : (dataset.runs.map fun run => run.stats.median).Nodup) :
    (rankRefs (dataset.reordered order).runs).map (RunRef.renumber (origin order)) =
      rankRefs dataset.runs := by
  have sorted := (pairwise_rankRefs dataset.runs).imp And.left
  have alsoSorted : ((rankRefs (dataset.reordered order).runs).map
      (RunRef.renumber (origin order))).Pairwise fun first second =>
        totalLe first.median second.median := by
    rw [List.pairwise_map]
    exact (pairwise_rankRefs (dataset.reordered order).runs).imp And.left
  have medians : ((rankRefs dataset.runs).map RunRef.median).Nodup := by
    rw [map_median_rankRefs]
    exact (sortAscending_perm _).nodup_iff.mpr distinct
  have references := map_renumber_rankRefs_perm order
  refine references.eq_of_pairwise ?_ alsoSorted sorted
  intro first second firstInside secondInside forwards backwards
  have tie : first.median = second.median := orderKey_injective
    (le_antisymm (of_decide_eq_true forwards) (of_decide_eq_true backwards))
  exact List.inj_on_of_nodup_map medians (references.mem_iff.mp firstInside) secondInside tie

/-- With medians that differ, a summary of the reordered runs is one of the runs themselves. -/
theorem summarizes_reordered_iff (distinct : (dataset.runs.map fun run => run.stats.median).Nodup) :
    Summarizes config metrics (dataset.reordered order) summary ↔
      Summarizes config metrics dataset (summary.renumber (origin order)) := by
  have injective := (origin order).injective
  have refs := List.map_injective_iff.mpr (RunRef.renumber_injective injective)
  have ranked : (summary.renumber (origin order)).ranked = rankRefs dataset.runs ↔
      summary.ranked = rankRefs (dataset.reordered order).runs := by
    rw [← map_renumber_rankRefs order distinct]
    exact refs.eq_iff
  have band : Band.ofMedians ((summary.renumber (origin order)).ranked.map RunRef.median) =
      .ok summary.band ↔ Band.ofMedians (summary.ranked.map RunRef.median) = .ok summary.band := by
    rw [Summary.renumber, map_median_renumber]
  have stable : (summary.renumber (origin order)).stable =
      (summary.renumber (origin order)).ranked.filter (fun ref => summary.band.contains ref.median) ↔
        summary.stable = summary.ranked.filter fun ref => summary.band.contains ref.median := by
    rw [Summary.renumber, filter_renumber]
    exact refs.eq_iff
  have trimmed : summary.trimmed = (config.trimOutliers &&
      !(summary.renumber (origin order)).stable.isEmpty) ↔
        summary.trimmed = (config.trimOutliers && !summary.stable.isEmpty) := by
    rw [Summary.renumber, List.isEmpty_map]
  have computed : metrics.mapM (MetricSummary.ofRuns config
      (runsAt dataset.runs (summary.renumber (origin order)).considered)) = .ok summary.metrics ↔
        metrics.mapM (MetricSummary.ofRuns config
          (runsAt (dataset.reordered order).runs summary.considered)) = .ok summary.metrics := by
    rw [Summary.considered_renumber, runsAt_reordered]
  have selected : Representatives.select? (summary.renumber (origin order)).ranked =
      some (summary.renumber (origin order)).representatives ↔
        Representatives.select? summary.ranked = some summary.representatives := by
    rw [Summary.renumber, Representatives.select?_renumber, Option.map_eq_some_iff]
    constructor
    · rintro ⟨representatives, found, same⟩
      rw [found, Representatives.renumber_injective injective same]
    · exact fun found => ⟨_, found, rfl⟩
  have count := length_reordered order
  constructor
  · intro spec
    exact ⟨spec.name, spec.runCount.trans count, spec.failureCount, ranked.mpr spec.ranked,
      band.mpr spec.band, stable.mpr spec.stable, trimmed.mpr spec.trimmed, computed.mpr spec.metrics,
      selected.mpr spec.representatives⟩
  · intro spec
    exact ⟨spec.name, spec.runCount.trans count.symm, spec.failureCount, ranked.mp spec.ranked,
      band.mp spec.band, stable.mp spec.stable, trimmed.mp spec.trimmed, computed.mp spec.metrics,
      selected.mp spec.representatives⟩

end Distinct

/-- The order of runs does not show in the medians of a summary. Where medians differ, it does not
show at all: renumbering the runs turns the summaries of either order into those of the other. -/
theorem summary_independent_of_order (config : Config) (metrics : List Metric) (dataset : Dataset)
    (order : Equiv.Perm (Fin dataset.runs.length)) :
    (dataset.runs ≠ [] → dataset.Recorded → (∀ metric ∈ metrics, metric.Answers) →
      (∃ summary, Summary.ofDataset config metrics dataset = .ok summary) ∧
        ∃ summary, Summary.ofDataset config metrics (dataset.reordered order) = .ok summary) ∧
    (∀ summary reordered, Summary.ofDataset config metrics dataset = .ok summary →
      Summary.ofDataset config metrics (dataset.reordered order) = .ok reordered →
      reordered.ranked.map RunRef.median = summary.ranked.map RunRef.median ∧
        reordered.band = summary.band ∧
        reordered.stable.map RunRef.median = summary.stable.map RunRef.median ∧
        reordered.trimmed = summary.trimmed ∧
        reordered.representatives.low.median = summary.representatives.low.median ∧
        reordered.representatives.median.median = summary.representatives.median.median ∧
        reordered.representatives.high.median = summary.representatives.high.median) ∧
    ((dataset.runs.map fun run => run.stats.median).Nodup → ∀ summary,
      Summary.ofDataset config metrics (dataset.reordered order) = .ok summary ↔
        Summary.ofDataset config metrics dataset = .ok (summary.renumber (origin order))) := by
  refine ⟨?_, ?_, ?_⟩
  · intro present recorded answer
    have reorderedPresent : (dataset.reordered order).runs ≠ [] := by
      rw [← List.length_pos_iff, length_reordered]
      exact List.length_pos_of_ne_nil present
    exact ⟨Summary.exists_of_recorded recorded present answer config,
      Summary.exists_of_recorded (recorded.reordered order) reorderedPresent answer config⟩
  · intro summary reordered made alsoMade
    rw [Summary.ofDataset_eq_ok_iff] at made alsoMade
    exact made.medians_eq alsoMade ((reordered_perm order).map _)
  · intro distinct summary
    rw [Summary.ofDataset_eq_ok_iff, Summary.ofDataset_eq_ok_iff]
    exact summarizes_reordered_iff order distinct

theorem summary_independent_of_order_of_reversal :
    let dataset := Dataset.ofMilliseconds [[20], [30], [10]]
    let order : Equiv.Perm (Fin dataset.runs.length) := Fin.revPerm
    ∃ summary reordered, Summary.ofDataset {} Metric.standard dataset = .ok summary ∧
      Summary.ofDataset {} Metric.standard (dataset.reordered order) = .ok reordered ∧
        reordered.band = summary.band ∧ summary = reordered.renumber (origin order) := by
  intro dataset order
  have present : dataset.runs ≠ [] := List.ne_nil_of_length_pos (by decide +kernel)
  have distinct : (dataset.runs.map fun run => run.stats.median).Nodup := by decide +kernel
  rcases summary_independent_of_order {} Metric.standard dataset order with
    ⟨succeeds, medians, renumbered⟩
  rcases succeeds present (Dataset.recorded_ofMilliseconds (by decide) (by decide))
    Metric.answers_standard with ⟨⟨summary, made⟩, ⟨reordered, alsoMade⟩⟩
  have same := (renumbered distinct reordered).mp alsoMade
  rw [made, Except.ok.injEq] at same
  exact ⟨summary, reordered, made, alsoMade, (medians summary reordered made alsoMade).2.1, same⟩

end FrameTiming

import FrameTiming.Proofs.Except
import FrameTiming.Proofs.Number.Order
import FrameTiming.Proofs.StableSort
import FrameTiming.Summary
import Mathlib.Data.List.Nodup
import Mathlib.Data.List.Range

/-! # Ranked runs

Ranking sorts references to runs by their medians. The medians alone say which numbers stand at which
rank; only where medians tie does the order of the runs show.
-/

namespace FrameTiming

open Number

variable {runs : List Run}

/-! ## References -/

theorem map_mapIdx {α β γ : Type} (change : β → γ) (number : ℕ → α → β) (values : List α) :
    (values.mapIdx number).map change = values.mapIdx fun index value => change (number index value) := by
  apply List.ext_getElem <;> simp

def rankRefs (runs : List Run) : List RunRef :=
  (runs.mapIdx fun index run => run.ref index).mergeSort fun first second =>
    totalLe first.median second.median

theorem map_fst_rankRuns (runs : List Run) : (rankRuns runs).map (·.1) = rankRefs runs := by
  rw [rankRuns, List.map_mergeSort (s := fun first second : RunRef =>
    totalLe first.median second.median) fun _ _ _ _ => rfl, map_mapIdx]
  rfl

theorem rankRefs_perm (runs : List Run) :
    (rankRefs runs).Perm (runs.mapIdx fun index run => run.ref index) :=
  List.mergeSort_perm _ _

theorem length_rankRefs (runs : List Run) : (rankRefs runs).length = runs.length := by
  rw [(rankRefs_perm runs).length_eq, List.length_mapIdx]

theorem rankRefs_ne_nil (present : runs ≠ []) : rankRefs runs ≠ [] := by
  apply List.ne_nil_of_length_pos
  rw [length_rankRefs]
  exact List.length_pos_of_ne_nil present

/-- The references are those of the runs, each at its position. -/
theorem mem_rankRefs {ref : RunRef} :
    ref ∈ rankRefs runs ↔ ∃ run, runs[ref.index]? = some run ∧ ref = run.ref ref.index := by
  rw [(rankRefs_perm runs).mem_iff, List.mem_mapIdx]
  constructor
  · rintro ⟨index, within, rfl⟩
    exact ⟨runs[index], List.getElem?_eq_getElem within, rfl⟩
  · rintro ⟨run, found, same⟩
    rcases List.getElem?_eq_some_iff.mp found with ⟨within, rfl⟩
    exact ⟨ref.index, within, same.symm⟩

/-- Every run is referred to exactly once. -/
theorem map_index_rankRefs_perm (runs : List Run) :
    ((rankRefs runs).map RunRef.index).Perm (List.range runs.length) := by
  have indices := (rankRefs_perm runs).map RunRef.index
  have numbered : (runs.mapIdx fun index run => run.ref index).map RunRef.index =
      List.range runs.length := by
    apply List.ext_getElem <;> simp [Run.ref]
  rwa [numbered] at indices

theorem nodup_map_index_rankRefs (runs : List Run) : ((rankRefs runs).map RunRef.index).Nodup :=
  (map_index_rankRefs_perm runs).nodup_iff.mpr List.nodup_range

/-- The medians of ranked runs are their medians in ascending order. -/
theorem map_median_rankRefs (runs : List Run) :
    (rankRefs runs).map RunRef.median = sortAscending (runs.map fun run => run.stats.median) := by
  have medians : (runs.mapIdx fun index run => run.ref index).map RunRef.median =
      runs.map fun run => run.stats.median := by
    apply List.ext_getElem <;> simp [Run.ref]
  rw [rankRefs, List.map_mergeSort (s := totalLe) fun _ _ _ _ => rfl, medians, sortAscending]

/-- Medians ascend, and where they tie, positions do. -/
theorem pairwise_rankRefs (runs : List Run) : (rankRefs runs).Pairwise fun first second =>
    totalLe first.median second.median ∧
      (totalLe second.median first.median → first.index < second.index) := by
  have increasing : (runs.mapIdx fun index run => (index, run)).Pairwise
      fun left right => left.1 < right.1 := by
    rw [List.pairwise_iff_getElem]
    simp
  let faster (left right : Run) : Bool := totalLe left.stats.median right.stats.median
  have sorted := @pairwise_mergeSort_numbered _ faster (fun _ _ _ => totalLe_trans _ _ _)
    (fun _ _ => totalLe_total _ _) _ increasing
  have referred : (runs.mapIdx fun index run => run.ref index) =
      (runs.mapIdx fun index run => (index, run)).map fun numbered =>
        numbered.2.ref numbered.1 := by
    rw [map_mapIdx]
  rw [rankRefs, referred, ← List.map_mergeSort (r := fun left right : ℕ × Run =>
    faster left.2 right.2) (f := fun numbered => numbered.2.ref numbered.1) fun _ _ _ _ => rfl,
    List.pairwise_map]
  exact sorted

/-! ## Looking runs up -/

def runsAt (runs : List Run) (refs : List RunRef) : List Run :=
  refs.filterMap fun ref => runs[ref.index]?

/-- A ranked reference finds the run that it was ranked with. -/
theorem runsAt_of_sublist {ranked : List (RunRef × Run)} (sublist : ranked.Sublist (rankRuns runs)) :
    runsAt runs (ranked.map (·.1)) = ranked.map (·.2) := by
  have found : ∀ entry ∈ ranked, runs[entry.1.index]? = some entry.2 := by
    intro entry member
    have numbered := (List.mergeSort_perm _ _).mem_iff.mp (sublist.subset member)
    rcases List.mem_mapIdx.mp numbered with ⟨index, within, rfl⟩
    exact List.getElem?_eq_getElem within
  rw [runsAt, List.filterMap_map, ← List.filterMap_eq_map]
  exact List.filterMap_congr found

theorem map_some_runsAt {refs : List RunRef} (ranked : ∀ ref ∈ refs, ref ∈ rankRefs runs) :
    (runsAt runs refs).map some = refs.map fun ref => runs[ref.index]? := by
  induction refs with
  | nil => rfl
  | cons first rest induction =>
      rw [List.forall_mem_cons] at ranked
      rcases mem_rankRefs.mp ranked.1 with ⟨run, found, -⟩
      have head : runsAt runs (first :: rest) = run :: runsAt runs rest :=
        List.filterMap_cons_some found
      rw [head, List.map_cons, List.map_cons, found, induction ranked.2]

/-- Positions that other runs have too find the same there. -/
theorem runsAt_congr {others : List Run} {refs : List RunRef}
    (same : ∀ ref ∈ refs, others[ref.index]? = runs[ref.index]?) :
    runsAt others refs = runsAt runs refs :=
  List.filterMap_congr same

/-! ## Summaries -/

/-- The references whose runs the metrics see. -/
def Summary.considered (summary : Summary) : List RunRef :=
  if summary.trimmed then summary.stable else summary.ranked

structure Summarizes (config : Config) (metrics : List Metric) (dataset : Dataset)
    (summary : Summary) : Prop where
  name : summary.dataset = dataset.name
  runCount : summary.runCount = dataset.runs.length
  failureCount : summary.failureCount = dataset.failures.length
  ranked : summary.ranked = rankRefs dataset.runs
  band : Band.ofMedians (summary.ranked.map RunRef.median) = .ok summary.band
  stable : summary.stable = summary.ranked.filter fun ref => summary.band.contains ref.median
  trimmed : summary.trimmed = (config.trimOutliers && !summary.stable.isEmpty)
  metrics : metrics.mapM (MetricSummary.ofRuns config (runsAt dataset.runs summary.considered)) =
    .ok summary.metrics
  representatives : Representatives.select? summary.ranked = some summary.representatives

theorem liftFault_eq_ok_iff {Value : Type} {outcome : Except PercentileFault Value}
    {value : Value} : Summary.liftFault outcome = .ok value ↔ outcome = .ok value := by
  cases outcome <;> simp [Summary.liftFault, Except.mapError]

/-- Only references are looked at to tell which ranked runs are inside a band. -/
theorem map_fst_filter_rankRuns (band : Band) (runs : List Run) :
    ((rankRuns runs).filter fun entry => band.contains entry.1.median).map (·.1) =
      (rankRefs runs).filter fun ref => band.contains ref.median := by
  rw [← map_fst_rankRuns, List.filter_map]
  rfl

theorem map_snd_considered (band : Band) (trimmed : Bool) (runs : List Run) :
    (if trimmed then (rankRuns runs).filter fun entry => band.contains entry.1.median
      else rankRuns runs).map (·.2) =
    runsAt runs (if trimmed then (rankRefs runs).filter fun ref => band.contains ref.median
      else rankRefs runs) := by
  cases trimmed with
  | false =>
      rw [← map_fst_rankRuns]
      exact (runsAt_of_sublist (List.Sublist.refl _)).symm
  | true =>
      rw [← map_fst_filter_rankRuns]
      exact (runsAt_of_sublist List.filter_sublist).symm

/-- The ranked references determine all of a summary but the metrics, which look runs up by them. -/
theorem Summary.ofDataset_eq_ok_iff {config : Config} {metrics : List Metric} {dataset : Dataset}
    {summary : Summary} : Summary.ofDataset config metrics dataset = .ok summary ↔
      Summarizes config metrics dataset summary := by
  have empty : ∀ band : Band, ((rankRuns dataset.runs).filter fun entry =>
      band.contains entry.1.median).isEmpty =
        ((rankRefs dataset.runs).filter fun ref => band.contains ref.median).isEmpty := by
    intro band
    rw [← map_fst_filter_rankRuns, List.isEmpty_map]
  unfold Summary.ofDataset
  simp only [map_fst_rankRuns, map_snd_considered, map_fst_filter_rankRuns, empty]
  cases selected : Representatives.select? (rankRefs dataset.runs) with
  | none =>
      simp only [reduceCtorEq, false_iff]
      intro summarizes
      have some := summarizes.representatives
      rw [summarizes.ranked, selected] at some
      cases some
  | some representatives =>
      simp only [bind_eq_ok_iff, liftFault_eq_ok_iff]
      constructor
      · rintro ⟨band, bounded, reduced, computed, made⟩
        cases made
        exact ⟨rfl, rfl, rfl, rfl, bounded, rfl, rfl, computed, selected⟩
      · rcases summary with ⟨name, runCount, failureCount, ranked, band, stable, trimmed, reduced,
          chosen⟩
        rintro ⟨named, counted, failed, rankedRefs, bounded, inside, gated, computed, chosenRefs⟩
        dsimp only [Summary.considered] at *
        subst named counted failed rankedRefs inside gated
        rw [selected, Option.some.injEq] at chosenRefs
        subst chosenRefs
        exact ⟨band, bounded, reduced, computed, rfl⟩

end FrameTiming

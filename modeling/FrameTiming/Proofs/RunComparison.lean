import FrameTiming.Proofs.FrameSeries
import FrameTiming.Proofs.RunNumbers
import FrameTiming.Table

/-! # Runs side by side

Rows are joined by position. The series of a run has a bucket for every second from second 0 on, so a
position is a second, however long the first frame takes and however many seconds are empty.
-/

namespace FrameTiming

/-! ## Series from second 0 on -/

namespace Bucket

/-- A series in which the position of a bucket is its second. -/
def Dense (series : List Bucket) : Prop :=
  ∀ (position : ℕ) (bucket : Bucket), series[position]? = some bucket → bucket.second = position

/-- Frames have a bucket for every second up to some count, and are counted once in them. -/
theorem exists_ofFrames_eq_map (frames : List Frame) : ∃ count,
    ofFrames frames = (List.range count).map (ofSecond (Timepoint.ofFrames frames)) ∧
      ∀ point ∈ Timepoint.ofFrames frames, point.second < count := by
  cases latest : ((Timepoint.ofFrames frames).map Timepoint.second).max? with
  | none =>
      refine ⟨0, by simp [ofFrames, seriesFrom, latest], ?_⟩
      have empty : Timepoint.ofFrames frames = [] := by simpa using latest
      simp [empty]
  | some last =>
      refine ⟨last + 1, ?_, ?_⟩
      · rw [ofFrames, seriesFrom_eq_map 0 _ latest, List.range_eq_range', Nat.sub_zero]
      · intro point member
        exact Nat.lt_succ_of_le
          ((List.max?_eq_some_iff.mp latest).2 _ (List.mem_map_of_mem member))

theorem dense_ofFrames (frames : List Frame) : Dense (ofFrames frames) := by
  rcases exists_ofFrames_eq_map frames with ⟨count, series, -⟩
  intro position bucket found
  rw [series, List.getElem?_map] at found
  rcases Option.map_eq_some_iff.mp found with ⟨second, inRange, rfl⟩
  rcases List.getElem?_eq_some_iff.mp inRange with ⟨within, rfl⟩
  rw [List.getElem_range]
  rfl

theorem length_timepoints (frames : List Frame) :
    (Timepoint.ofFrames frames).length = frames.length := by
  rw [Timepoint.ofFrames_eq_mapIdx, List.length_mapIdx]

theorem sum_frameCount_ofFrames (frames : List Frame) :
    ((ofFrames frames).map Bucket.frameCount).sum = frames.length := by
  rcases exists_ofFrames_eq_map frames with ⟨count, series, within⟩
  rw [series, List.map_map, ← length_timepoints frames]
  exact sum_length_pointsIn _ List.nodup_range _ fun point member =>
    List.mem_range.mpr (within point member)

variable {series : List Bucket} {second : ℕ} {bucket : Bucket}

theorem Dense.getElem?_eq_some_iff (dense : Dense series) :
    series[second]? = some bucket ↔ bucket ∈ series ∧ bucket.second = second := by
  constructor
  · intro found
    exact ⟨List.mem_of_getElem? found, dense second bucket found⟩
  · rintro ⟨member, here⟩
    rcases List.mem_iff_getElem?.mp member with ⟨position, found⟩
    have same : position = second := by
      have there := dense position bucket found
      omega
    rwa [← same]

/-- A series is as long as its largest second tells. -/
theorem Dense.lt_length_iff (dense : Dense series) :
    second < series.length ↔ ∃ bucket ∈ series, second ≤ bucket.second := by
  constructor
  · intro within
    have found := List.getElem?_eq_getElem within
    exact ⟨series[second], List.getElem_mem within, (dense second _ found).ge⟩
  · rintro ⟨bucket, member, notEarlier⟩
    rcases List.mem_iff_getElem?.mp member with ⟨position, found⟩
    have here := dense position bucket found
    have within := (List.getElem?_eq_some_iff.mp found).1
    omega

end Bucket

/-! ## Rows -/

namespace FpsRow

open Bucket (Dense)

variable {series low median high : List Bucket} {second count : ℕ} {state : StateId}

theorem cell?_eq_some_iff (dense : Dense series) :
    cell? series second = some (count, state) ↔ (⟨second, count, state⟩ : Bucket) ∈ series := by
  have here : (⟨second, count, state⟩ : Bucket) ∈ series ↔
      series[second]? = some ⟨second, count, state⟩ := by
    rw [dense.getElem?_eq_some_iff]
    simp
  rw [here, cell?]
  constructor
  · intro shown
    rcases Option.map_eq_some_iff.mp shown with ⟨⟨there, _, _⟩, found, same⟩
    cases same
    rw [found, ← dense second _ found]
  · intro found
    rw [found]
    rfl

theorem cell?_eq_none_iff (dense : Dense series) :
    cell? series second = none ↔ ∀ bucket ∈ series, bucket.second ≠ second := by
  rw [cell?, Option.map_eq_none_iff, Option.eq_none_iff_forall_ne_some]
  constructor
  · intro none bucket member here
    exact none bucket (dense.getElem?_eq_some_iff.mpr ⟨member, here⟩)
  · intro absent bucket found
    exact absent bucket (List.mem_of_getElem? found) (dense second bucket found)

/-- The series that a side of rows shows. -/
def seriesOf (side : FpsRow → Option (ℕ × StateId)) (rows : List FpsRow) : List Bucket :=
  rows.filterMap fun row => (side row).map fun (count, state) => ⟨row.second, count, state⟩

/-- Positions up to the end of a list, or beyond it, find all of its elements. -/
theorem filterMap_getElem?_range {α : Type} (values : List α) {count : ℕ}
    (enough : values.length ≤ count) :
    (List.range count).filterMap (fun position => values[position]?) = values := by
  induction values generalizing count with
  | nil => simp
  | cons first rest induction =>
      cases count with
      | zero => simp at enough
      | succ count =>
          rw [List.range_succ_eq_map, List.filterMap_cons, List.filterMap_map]
          exact congrArg (first :: ·) (induction (Nat.le_of_succ_le_succ enough))

/-- A side that has the cells of a series shows the series. -/
theorem seriesOf_map_range {side : FpsRow → Option (ℕ × StateId)} {row : ℕ → FpsRow}
    (dense : Dense series) (seconds : ∀ second, (row second).second = second)
    (cells : ∀ second, side (row second) = cell? series second)
    (enough : series.length ≤ count) :
    seriesOf side ((List.range count).map row) = series := by
  rw [seriesOf, List.filterMap_map, ← filterMap_getElem?_range series enough]
  apply List.filterMap_congr
  intro second _
  rw [Function.comp_apply, cells, seconds, cell?, Option.map_map]
  cases found : series[second]? with
  | none => rfl
  | some bucket => simp [← dense second bucket found]

/-- A side of rows that shows a run: the cell of every second is the bucket which the run has then, or
empty if it has none, and no bucket and no frame of the run is left out. -/
structure Shows (side : FpsRow → Option (ℕ × StateId)) (run : Run) (rows : List FpsRow) : Prop where
  present : ∀ row ∈ rows, ∀ count state,
    side row = some (count, state) ↔ (⟨row.second, count, state⟩ : Bucket) ∈ run.fps
  absent : ∀ row ∈ rows, side row = none ↔ ∀ bucket ∈ run.fps, bucket.second ≠ row.second
  rebuilt : seriesOf side rows = run.fps
  total : ((rows.filterMap side).map Prod.fst).sum = run.frames.length

theorem shows_map_range {side : FpsRow → Option (ℕ × StateId)} {row : ℕ → FpsRow} (run : Run)
    (seconds : ∀ second, (row second).second = second)
    (cells : ∀ second, side (row second) = cell? run.fps second)
    (enough : run.fps.length ≤ count) : Shows side run ((List.range count).map row) := by
  have dense : Dense run.fps := Bucket.dense_ofFrames run.frames
  have rebuilt := seriesOf_map_range dense seconds cells enough
  refine ⟨?_, ?_, rebuilt, ?_⟩
  · rintro _ listed count state
    rcases List.mem_map.mp listed with ⟨second, -, rfl⟩
    rw [cells, seconds]
    exact cell?_eq_some_iff dense
  · rintro _ listed
    rcases List.mem_map.mp listed with ⟨second, -, rfl⟩
    rw [cells, seconds]
    exact cell?_eq_none_iff dense
  · have counts := congrArg (List.map Bucket.frameCount) rebuilt
    rw [seriesOf, List.map_filterMap] at counts
    simp only [Option.map_map] at counts
    have total : (run.fps.map Bucket.frameCount).sum = run.frames.length :=
      Bucket.sum_frameCount_ofFrames run.frames
    rw [← total, ← counts, List.map_filterMap]
    rfl

end FpsRow

/-- The comparison of three runs is aligned by second. It has a row for every second up to the largest
one of the three, and each of its sides shows one run. -/
theorem comparison_aligned (low median high : Run) :
    let rows := FpsRow.ofSeries low.fps median.fps high.fps
    rows.map FpsRow.second = List.range rows.length ∧
    (∀ second : ℕ, second < rows.length ↔
      ∃ bucket ∈ low.fps ++ median.fps ++ high.fps, second ≤ bucket.second) ∧
    FpsRow.Shows FpsRow.low? low rows ∧ FpsRow.Shows FpsRow.median? median rows ∧
      FpsRow.Shows FpsRow.high? high rows := by
  intro rows
  have dense : ∀ run : Run, Bucket.Dense run.fps := fun run => Bucket.dense_ofFrames run.frames
  have length : rows.length = max (max low.fps.length median.fps.length) high.fps.length := by
    simp [rows, FpsRow.ofSeries]
  refine ⟨?_, ?_, ?_, ?_, ?_⟩
  · rw [length]
    simp only [rows, FpsRow.ofSeries, List.map_map]
    exact List.map_id _
  · intro second
    simp only [length, lt_max_iff, (dense _).lt_length_iff, List.mem_append, or_and_right,
      exists_or]
  · exact FpsRow.shows_map_range low (fun _ => rfl) (fun _ => rfl) (by omega)
  · exact FpsRow.shows_map_range median (fun _ => rfl) (fun _ => rfl) (by omega)
  · exact FpsRow.shows_map_range high (fun _ => rfl) (fun _ => rfl) (by omega)

private theorem exists_run (name : String) (source : Path) {frames : List Frame}
    (present : frames ≠ []) :
    ∃ run, Run.ofFrames {} name source frames = .ok run ∧ run.fps = Bucket.ofFrames frames := by
  have durations : Run.durationsIn none frames ≠ [] := by simpa [Run.durationsIn] using present
  have exists_made : ∃ run, Run.ofFrames {} name source frames = .ok run :=
    Run.ofFrames_succeeds_iff.mpr durations
  rcases exists_made with ⟨run, made⟩
  rcases Run.ofFrames_eq_ok_iff.mp made with ⟨stats, -, rfl⟩
  exact ⟨_, made, rfl⟩

/-- A run that stalls, one that ends within its first second, and one that ends on a whole second. -/
theorem comparison_aligned_of_stall :
    ∃ low median high,
      Run.ofFrames {} "a/run" ⟨"/a/run"⟩ [⟨2500000000, none⟩, ⟨100000000, none⟩] = .ok low ∧
      Run.ofFrames {} "b/run" ⟨"/b/run"⟩ [⟨500000000, none⟩] = .ok median ∧
      Run.ofFrames {} "c/run" ⟨"/c/run"⟩ [⟨500000000, none⟩, ⟨500000000, none⟩] = .ok high ∧
      let rows := FpsRow.ofSeries low.fps median.fps high.fps
      FpsRow.seriesOf FpsRow.low? rows = [⟨0, 0, 0⟩, ⟨1, 0, 0⟩, ⟨2, 2, 0⟩] ∧
      FpsRow.seriesOf FpsRow.median? rows = [⟨0, 1, 0⟩] ∧
      FpsRow.seriesOf FpsRow.high? rows = [⟨0, 1, 0⟩, ⟨1, 1, 0⟩] := by
  rcases exists_run "a/run" ⟨"/a/run"⟩ (List.cons_ne_nil _ _) with ⟨low, lowMade, lowSeries⟩
  rcases exists_run "b/run" ⟨"/b/run"⟩ (List.cons_ne_nil _ _) with ⟨median, medianMade, medianSeries⟩
  rcases exists_run "c/run" ⟨"/c/run"⟩ (List.cons_ne_nil _ _) with ⟨high, highMade, highSeries⟩
  rcases comparison_aligned low median high with ⟨-, -, lowShown, medianShown, highShown⟩
  refine ⟨low, median, high, lowMade, medianMade, highMade, ?_, ?_, ?_⟩
  · rw [lowShown.rebuilt, lowSeries]
    decide +kernel
  · rw [medianShown.rebuilt, medianSeries]
    decide +kernel
  · rw [highShown.rebuilt, highSeries]
    decide +kernel

end FrameTiming

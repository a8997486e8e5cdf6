import FrameTiming.Fps
import Mathlib.Algebra.BigOperators.Group.Finset.Piecewise
import Mathlib.Algebra.Ring.Nat
import Mathlib.Data.List.Induction
import Mathlib.Data.List.Nodup

/-! # The buckets of a series

A series has the bucket of every second from its first to that of the latest timepoint. A bucket is
known from the timepoints alone: how many lie in its second, and which of them comes last.
-/

namespace FrameTiming

/-! ## Elements by key -/

/-- Elements fall apart by their keys: if every key is listed once, what they amount to is all there
and nothing counts twice. -/
theorem sum_map_filter {α β : Type} [DecidableEq β] {key : α → β} {keys : List β}
    (distinct : keys.Nodup) {elements : List α}
    (covered : ∀ element ∈ elements, key element ∈ keys) (amount : α → ℕ) :
    (keys.map fun one => ((elements.filter fun element => key element = one).map amount).sum).sum =
      (elements.map amount).sum := by
  induction elements with
  | nil => simp
  | cons element rest induction =>
      rw [List.forall_mem_cons] at covered
      have step : ∀ one,
          (((element :: rest).filter fun element => key element = one).map amount).sum =
            (if key element = one then amount element else 0) +
              ((rest.filter fun element => key element = one).map amount).sum := by
        intro one
        by_cases here : key element = one <;> simp [here]
      have once : (keys.map fun one => if key element = one then amount element else 0).sum =
          amount element := by
        rw [← List.sum_toFinset _ distinct, Finset.sum_ite_eq,
          if_pos (List.mem_toFinset.mpr covered.1)]
      simp only [step]
      rw [List.sum_map_add, once, induction covered.2, List.map_cons, List.sum_cons]

theorem sum_length_filter {α β : Type} [DecidableEq β] {key : α → β} {keys : List β}
    (distinct : keys.Nodup) {elements : List α}
    (covered : ∀ element ∈ elements, key element ∈ keys) :
    (keys.map fun one => (elements.filter fun element => key element = one).length).sum =
      elements.length := by
  simpa only [List.map_const', List.sum_replicate_nat, mul_one] using
    sum_map_filter distinct covered fun _ => 1

namespace Bucket

/-! ## Tallies -/

/-- The timepoints of a second, in their order. -/
def pointsIn (second : Nat) (points : List Timepoint) : List Timepoint :=
  points.filter fun point => point.second = second

theorem pointsIn_append_singleton (second : Nat) (points : List Timepoint) (point : Timepoint) :
    pointsIn second (points ++ [point]) =
      if point.second = second then pointsIn second points ++ [point]
      else pointsIn second points := by
  by_cases here : point.second = second <;> simp [pointsIn, here]

theorem tally_append_singleton (points : List Timepoint) (point : Timepoint) :
    tally (points ++ [point]) = (tally points).alter point.second fun
      | none => some (1, point.state)
      | some (count, _) => some (count + 1, point.state) :=
  List.foldl_append

/-- The tally of a second counts its timepoints and keeps the state of the last one. -/
theorem tally_getElem? (points : List Timepoint) (second : Nat) :
    (tally points)[second]? =
      (pointsIn second points).getLast?.map fun last =>
        ((pointsIn second points).length, last.state) := by
  induction points using List.reverseRecOn with
  | nil => simp [tally, pointsIn]
  | append_singleton points point induction =>
      rw [tally_append_singleton, Std.TreeMap.getElem?_alter, pointsIn_append_singleton]
      by_cases here : point.second = second
      · subst here
        simp only [Std.LawfulEqCmp.compare_eq_iff_eq, if_true, induction]
        cases found : (pointsIn point.second points).getLast? with
        | none =>
            rw [List.getLast?_eq_none_iff] at found
            simp [found]
        | some last => simp
      · simp [here, induction]

/-! ## Buckets -/

def ofSecond (points : List Timepoint) (second : Nat) : Bucket where
  second := second
  frameCount := (pointsIn second points).length
  state := ((pointsIn second points).getLast?.map Timepoint.state).getD defaultState

/-- A series has the bucket of every second up to the one of the latest timepoint. -/
theorem seriesFrom_eq_map (first : Nat) (points : List Timepoint) {last : Nat}
    (latest : (points.map Timepoint.second).max? = some last) :
    seriesFrom first points = (List.range' first (last + 1 - first)).map (ofSecond points) := by
  unfold seriesFrom
  rw [latest]
  apply List.map_congr_left
  intro second _
  rw [Std.TreeMap.getD_eq_getD_getElem?, tally_getElem?]
  cases found : (pointsIn second points).getLast? with
  | none =>
      rw [List.getLast?_eq_none_iff] at found
      simp [ofSecond, found]
  | some point => simp [ofSecond, found]

theorem seriesFrom_bounds (first : Nat) {limit : Nat} {points : List Timepoint}
    (within : ∀ point ∈ points, point.second ≤ limit) :
    (seriesFrom first points).length ≤ limit + 1 - first ∧
      ∀ bucket ∈ seriesFrom first points, first ≤ bucket.second ∧ bucket.second ≤ limit := by
  cases latest : (points.map Timepoint.second).max? with
  | none => simp [seriesFrom, latest]
  | some last =>
      rcases List.mem_map.mp (List.max?_mem latest) with ⟨point, member, rfl⟩
      have lastWithin := within point member
      rw [seriesFrom_eq_map first points latest]
      constructor
      · rw [List.length_map, List.length_range']
        omega
      · intro bucket inSeries
        rcases List.mem_map.mp inSeries with ⟨second, inRange, rfl⟩
        have bounds := List.mem_range'_1.mp inRange
        simp only [ofSecond]
        omega

/-- No timepoint is lost if all of them lie in the seconds that are looked at. -/
theorem sum_length_pointsIn (seconds : List Nat) (distinct : seconds.Nodup)
    (points : List Timepoint) (covered : ∀ point ∈ points, point.second ∈ seconds) :
    (seconds.map fun second => (pointsIn second points).length).sum = points.length :=
  sum_length_filter distinct covered

/-! ## Series of timepoints -/

theorem mem_pointsIn {second : Nat} {points : List Timepoint} {point : Timepoint} :
    point ∈ pointsIn second points ↔ point ∈ points ∧ point.second = second := by
  simp [pointsIn]

theorem ofTimepoints_eq_map (points : List Timepoint) {first last : Nat}
    (earliest : (points.map Timepoint.second).min? = some first)
    (latest : (points.map Timepoint.second).max? = some last) :
    ofTimepoints points = (List.range' first (last + 1 - first)).map (ofSecond points) := by
  simp only [ofTimepoints, earliest]
  exact seriesFrom_eq_map first points latest

/-- Timepoints that exist have an earliest and a latest second, and both are theirs. -/
theorem exists_seconds_of_ne_nil {points : List Timepoint} (present : points ≠ []) :
    ∃ first last, (points.map Timepoint.second).min? = some first ∧
      (points.map Timepoint.second).max? = some last ∧
      (∀ point ∈ points, first ≤ point.second ∧ point.second ≤ last) ∧
      pointsIn first points ≠ [] ∧ pointsIn last points ≠ [] := by
  have seconds : points.map Timepoint.second ≠ [] := by simpa using present
  rcases Option.isSome_iff_exists.mp (List.isSome_min?_of_ne_nil seconds) with ⟨first, earliest⟩
  rcases Option.isSome_iff_exists.mp (List.isSome_max?_of_ne_nil seconds) with ⟨last, latest⟩
  rcases List.min?_eq_some_iff.mp earliest with ⟨firstMem, firstLe⟩
  rcases List.max?_eq_some_iff.mp latest with ⟨lastMem, leLast⟩
  refine ⟨first, last, earliest, latest, ?_, ?_, ?_⟩
  · intro point member
    have inSeconds := List.mem_map_of_mem (f := Timepoint.second) member
    exact ⟨firstLe _ inSeconds, leLast _ inSeconds⟩
  · rcases List.mem_map.mp firstMem with ⟨point, member, here⟩
    exact List.ne_nil_of_mem (mem_pointsIn.mpr ⟨member, here⟩)
  · rcases List.mem_map.mp lastMem with ⟨point, member, here⟩
    exact List.ne_nil_of_mem (mem_pointsIn.mpr ⟨member, here⟩)

end Bucket

end FrameTiming

import FrameTiming.Proofs.Number.Arithmetic
import FrameTiming.Proofs.RecordedTime

/-! # The series of a recording

Frames that follow each other are counted from second 0 on, timepoints from their earliest second
on. Since the ends of frames ascend, the earliest second is the one in which the first frame ends,
and only empty seconds lie before it.
-/

namespace FrameTiming

/-! ## Ends of frames -/

theorem Timepoint.min?_second_ofFrames (first : Frame) (rest : List Frame) :
    ((ofFrames (first :: rest)).map second).min? =
      some (first.duration.toNat / secondLength) := by
  have second_eq : ∀ (duration : ℕ) (state : StateId), second ⟨.ofNatClamp duration, state⟩ =
      min duration (2 ^ 64 - 1) / secondLength := by
    intro duration state
    rw [second, Number.toNat_ofNatClamp]
  have earliest := first.duration.toNat_lt
  rw [ofFrames_eq_mapIdx, List.min?_eq_some_iff, List.mapIdx_cons, List.map_cons]
  constructor
  · apply List.mem_cons.mpr
    left
    rw [second_eq, List.take_succ_cons, List.take_zero, FrameLog.totalDuration_cons]
    simp only [totalDuration, List.foldr_nil, secondLength]
    omega
  · intro second inSeconds
    rw [List.mem_cons, List.mem_map] at inSeconds
    rcases inSeconds with rfl | ⟨point, member, rfl⟩
    · rw [second_eq, List.take_succ_cons, FrameLog.totalDuration_cons]
      exact Nat.div_le_div_right (by omega)
    · rcases List.mem_mapIdx.mp member with ⟨index, within, rfl⟩
      rw [second_eq, List.take_succ_cons, FrameLog.totalDuration_cons]
      exact Nat.div_le_div_right (by omega)

/-! ## The two series -/

def Bucket.vacant (second : ℕ) : Bucket :=
  ⟨second, 0, defaultState⟩

namespace Bucket

/-- A series from second 0 on is the one from the earliest timepoint on behind empty seconds. -/
theorem seriesFrom_zero {points : List Timepoint} {first : ℕ}
    (earliest : (points.map Timepoint.second).min? = some first) :
    seriesFrom 0 points = (List.range first).map vacant ++ ofTimepoints points := by
  have present : points ≠ [] := by
    rintro rfl
    cases earliest
  rcases exists_seconds_of_ne_nil present with ⟨same, last, alsoEarliest, latest, bounds, filled, -⟩
  cases earliest.symm.trans alsoEarliest
  rcases List.exists_mem_of_ne_nil _ filled with ⟨point, inFirst⟩
  have order := bounds point (mem_pointsIn.mp inFirst).1
  have seconds : List.range' 0 (last + 1 - 0) =
      List.range first ++ List.range' first (last + 1 - first) := by
    have joined := @List.range'_append_1 0 first (last + 1 - first)
    rw [Nat.zero_add] at joined
    rw [List.range_eq_range', joined]
    congr 1
    omega
  have empty : (List.range first).map (ofSecond points) = (List.range first).map vacant := by
    apply List.map_congr_left
    intro second before
    have none : pointsIn second points = [] := by
      rw [List.eq_nil_iff_forall_not_mem]
      intro other member
      rcases mem_pointsIn.mp member with ⟨inPoints, here⟩
      have least := (bounds other inPoints).1
      rw [List.mem_range] at before
      omega
    simp [ofSecond, none, vacant]
  rw [seriesFrom_eq_map 0 points latest, ofTimepoints_eq_map points earliest latest, seconds,
    List.map_append, empty]

/-- The series of frames is that of the times at which they end, each with the state of its frame,
behind an empty bucket for every second before the one in which the first frame ends. -/
theorem ofFrames_eq_append_ofTimepoints (first : Frame) (rest : List Frame) :
    ofFrames (first :: rest) =
      (List.range (first.duration.toNat / secondLength)).map vacant ++
        ofTimepoints ((first :: rest).mapIdx fun index frame =>
          ⟨.ofNatClamp (totalDuration ((first :: rest).take (index + 1))), frame.state⟩) := by
  rw [← Timepoint.ofFrames_eq_mapIdx]
  exact seriesFrom_zero (Timepoint.min?_second_ofFrames first rest)

/-- Of three frames the first ends in second 2, so both empty seconds before it are put in front. -/
theorem ofFrames_eq_append_of_late_start :
    let points : List Timepoint := [⟨2500000000, 1⟩, ⟨2500000001, -2⟩, ⟨3200000001, 0⟩]
    ofTimepoints points = [⟨2, 2, -2⟩, ⟨3, 1, 0⟩] ∧
      ofFrames [⟨2500000000, some 1⟩, ⟨1, some (-2)⟩, ⟨700000000, none⟩] =
        [vacant 0, vacant 1] ++ ofTimepoints points := by
  intro points
  refine ⟨by decide +kernel, ?_⟩
  rw [ofFrames_eq_append_ofTimepoints]
  rfl

end Bucket

end FrameTiming

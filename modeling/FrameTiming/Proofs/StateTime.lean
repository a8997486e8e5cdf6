import FrameTiming.StateTime
import Mathlib.Data.List.Basic
import Mathlib.Data.List.Nodup

/-! # States of a recording

Every state that occurs is listed once, in ascending order, and an account has an entry for each of
them.
-/

namespace FrameTiming

/-! ## Lists of states -/

theorem mem_insertState {state other : StateId} {states : List StateId} :
    other ∈ insertState state states ↔ other = state ∨ other ∈ states := by
  induction states with
  | nil => simp [insertState]
  | cons first rest induction =>
      rw [insertState]
      split_ifs with before same
      · rw [List.mem_cons]
      · rw [same, List.mem_cons, or_self_left]
      · rw [List.mem_cons, induction, List.mem_cons, or_left_comm]

theorem pairwise_insertState (state : StateId) {states : List StateId}
    (ascending : states.Pairwise (· < ·)) : (insertState state states).Pairwise (· < ·) := by
  induction states with
  | nil => exact List.pairwise_singleton _ _
  | cons first rest induction =>
      rcases List.pairwise_cons.mp ascending with ⟨least, others⟩
      rw [insertState]
      split_ifs with before same
      · refine List.pairwise_cons.mpr ⟨?_, ascending⟩
        intro other member
        rcases List.mem_cons.mp member with rfl | later
        · exact before
        · exact Int64.lt_trans before (least other later)
      · exact ascending
      · refine List.pairwise_cons.mpr ⟨?_, induction others⟩
        intro other member
        rcases mem_insertState.mp member with rfl | later
        · exact Int64.lt_of_le_of_ne (Int64.not_lt.mp before) (Ne.symm same)
        · exact least other later

/-- The states listed are those of the frames. -/
theorem mem_statesOf {state : StateId} {frames : List Frame} :
    state ∈ statesOf frames ↔ ∃ frame ∈ frames, frame.state = state := by
  induction frames with
  | nil => simp [statesOf]
  | cons frame rest induction =>
      have unfolded : statesOf (frame :: rest) = insertState frame.state (statesOf rest) := rfl
      rw [unfolded, mem_insertState, induction, List.exists_mem_cons_iff, eq_comm]

theorem pairwise_statesOf (frames : List Frame) : (statesOf frames).Pairwise (· < ·) := by
  induction frames with
  | nil => exact .nil
  | cons frame rest induction => exact pairwise_insertState frame.state induction

theorem nodup_statesOf (frames : List Frame) : (statesOf frames).Nodup :=
  (pairwise_statesOf frames).imp Int64.ne_of_lt

/-! ## Accounts -/

namespace StateTime

theorem states_ofFrames (frames : List Frame) : (ofFrames frames).states = statesOf frames := by
  simp [ofFrames, states, Function.comp_def]

/-- The time in a state that occurs is the one added up for it. -/
theorem inState_ofFrames {state : StateId} {frames : List Frame}
    (occurs : ∃ frame ∈ frames, frame.state = state) :
    (ofFrames frames).inState state = (timeIn state frames).toFloat / millisecondLength := by
  have entry := List.lookup_graph (fun state => (timeIn state frames).toFloat / millisecondLength)
    (mem_statesOf.mpr occurs)
  rw [inState, ofFrames, entry, Option.getD_some]

/-- No time was spent in a state that does not occur. -/
theorem inState_of_absent {state : StateId} {frames : List Frame}
    (absent : ¬∃ frame ∈ frames, frame.state = state) : (ofFrames frames).inState state = 0 := by
  have none : (ofFrames frames).entries.lookup state = none := by
    rw [List.lookup_eq_none_iff]
    intro entry member
    rcases List.mem_map.mp member with ⟨other, inside, rfl⟩
    rw [bne_iff_ne]
    rintro rfl
    exact absent (mem_statesOf.mp inside)
  rw [inState, none, Option.getD_none]

end StateTime

end FrameTiming

import FrameTiming.Proofs.TotalTime
import Mathlib.Data.List.Sort

/-! # The account of a recording

An account can be kept frame by frame, each one adding its time to the entry of its state. However
the states alternate, that leaves the time of every state where it belongs: every state has one entry,
and together the entries have the time of all frames.
-/

namespace FrameTiming

/-! ## Keeping an account -/

/-- Adds a time to the entry of a state in an ascending account. A state without an entry gets one. -/
def enterTime (state : StateId) (time : UInt64) :
    List (StateId × UInt64) → List (StateId × UInt64)
  | [] => [(state, addTime 0 time)]
  | entry :: rest =>
      if state < entry.1 then (state, addTime 0 time) :: entry :: rest
      else if state = entry.1 then (state, addTime entry.2 time) :: rest
      else entry :: enterTime state time rest

/-- The account of some frames, kept frame by frame. -/
def runningAccount (frames : List Frame) : List (StateId × UInt64) :=
  frames.foldl (fun account frame => enterTime frame.state frame.duration account) []

example : runningAccount [⟨3, some 2⟩, ⟨1, none⟩, ⟨2, some 2⟩, ⟨4, some 0⟩] = [(0, 5), (2, 5)] := by
  decide

/-- A frame changes the entry of its state and no other, if states without an entry have no time. -/
theorem enterTime_map {states : List StateId} (ascending : states.Pairwise (· < ·))
    {times : StateId → UInt64} {state : StateId} (absent : state ∉ states → times state = 0)
    (time : UInt64) :
    enterTime state time (states.map fun one => (one, times one)) =
      (insertState state states).map fun one =>
        (one, if one = state then addTime (times one) time else times one) := by
  have others : ∀ {rest : List StateId}, state ∉ rest →
      rest.map (fun one => (one, if one = state then addTime (times one) time else times one)) =
        rest.map fun one => (one, times one) := by
    intro rest missing
    apply List.map_congr_left
    intro one member
    rw [if_neg (ne_of_mem_of_not_mem member missing)]
  induction states with
  | nil => simp [enterTime, insertState, absent]
  | cons first rest induction =>
      rcases List.pairwise_cons.mp ascending with ⟨least, following⟩
      rw [List.map_cons, enterTime, insertState]
      dsimp only
      by_cases before : state < first
      · have missing : state ∉ first :: rest := by
          intro member
          rcases List.mem_cons.mp member with same | later
          · exact Int64.ne_of_lt before same
          · exact Int64.lt_asymm before (least state later)
        rw [if_pos before, if_pos before, List.map_cons, others missing, if_pos rfl, absent missing,
          List.map_cons]
      · rw [if_neg before, if_neg before]
        by_cases same : state = first
        · have missing : state ∉ rest := fun later => Int64.lt_irrefl (same ▸ least state later)
          rw [if_pos same, if_pos same, List.map_cons, others missing, ← same, if_pos rfl]
        · rw [if_neg same, if_neg same, List.map_cons, if_neg (Ne.symm same), induction following]
          intro missing
          apply absent
          rw [List.mem_cons, not_or]
          exact ⟨same, missing⟩

/-! ## One more frame -/

/-- States depend only on which of them occur. -/
theorem statesOf_eq_of_mem_iff {frames : List Frame} {states : List StateId}
    (ascending : states.Pairwise (· < ·))
    (listed : ∀ state, state ∈ states ↔ ∃ frame ∈ frames, frame.state = state) :
    states = statesOf frames :=
  ascending.eq_of_mem_iff (pairwise_statesOf frames) fun state =>
    (listed state).trans mem_statesOf.symm

theorem statesOf_append_singleton (frames : List Frame) (frame : Frame) :
    statesOf (frames ++ [frame]) = insertState frame.state (statesOf frames) := by
  symm
  apply statesOf_eq_of_mem_iff (pairwise_insertState _ (pairwise_statesOf frames))
  intro state
  rw [mem_insertState, mem_statesOf]
  simp [or_and_right, exists_or, or_comm, eq_comm]

theorem timeIn_append_singleton (state : StateId) (frames : List Frame) (frame : Frame) :
    timeIn state (frames ++ [frame]) =
      if state = frame.state then addTime (timeIn state frames) frame.duration
      else timeIn state frames := by
  by_cases here : state = frame.state
  · simp [timeIn, here]
  · simp [timeIn, here, Ne.symm here]

theorem timeIn_of_not_mem {state : StateId} {frames : List Frame} (absent : state ∉ statesOf frames) :
    timeIn state frames = 0 := by
  have none : (frames.filter fun frame => frame.state = state) = [] := by
    rw [List.filter_eq_nil_iff]
    intro frame member inState
    exact absent (mem_statesOf.mpr ⟨frame, member, of_decide_eq_true inState⟩)
  rw [timeIn, none]
  rfl

/-- An account that is kept frame by frame has an entry for each state that occurs, and in it the time
that was added up for this state alone. -/
theorem runningAccount_eq_map (frames : List Frame) :
    runningAccount frames = (statesOf frames).map fun state => (state, timeIn state frames) := by
  induction frames using List.reverseRecOn with
  | nil => rfl
  | append_singleton frames frame induction =>
      have kept : runningAccount (frames ++ [frame]) =
          enterTime frame.state frame.duration (runningAccount frames) :=
        List.foldl_append
      rw [kept, induction, enterTime_map (pairwise_statesOf frames) timeIn_of_not_mem,
        statesOf_append_singleton]
      simp only [timeIn_append_singleton]

/-! ## All frames -/

theorem totalDuration_eq_of_perm {frames permuted : List Frame} (permutation : permuted.Perm frames) :
    totalDuration permuted = totalDuration frames := by
  rw [totalDuration_eq_sum, totalDuration_eq_sum]
  exact (permutation.map _).sum_eq

/-- The frames in each state last as long as all frames together. -/
theorem sum_totalDuration_framesIn (frames : List Frame) :
    ((statesOf frames).map fun state => totalDuration (framesIn state frames)).sum =
      totalDuration frames := by
  simp only [totalDuration_eq_sum]
  exact sum_map_filter (nodup_statesOf frames)
    (fun frame member => mem_statesOf.mpr ⟨frame, member, rfl⟩) fun frame => frame.duration.toNat

/-- The order of the frames does not matter, not even where sums stop at the largest time. -/
theorem ofFrames_eq_of_perm {frames permuted : List Frame} (permutation : permuted.Perm frames) :
    StateTime.ofFrames permuted = StateTime.ofFrames frames := by
  have states : statesOf permuted = statesOf frames := by
    apply statesOf_eq_of_mem_iff (pairwise_statesOf permuted)
    intro state
    simp only [mem_statesOf, permutation.mem_iff]
  have times : ∀ state, timeIn state permuted = timeIn state frames := by
    intro state
    have part : (framesIn state permuted).Perm (framesIn state frames) := permutation.filter _
    rw [← UInt64.toNat_inj, toNat_timeIn_eq_min, toNat_timeIn_eq_min, totalDuration_eq_of_perm part]
  simp only [StateTime.ofFrames, states, times]

/-- The states of a recording divide its time. Each state that occurs has one entry, in ascending order
of the states: the exact time of its frames, converted once. These times add up to the time of all
frames, no other state has any, and the order of the frames does not matter. The same account comes out
if it is kept frame by frame, and no sum in it is cut off. -/
theorem stateTime_divides (frames : List Frame) (fits : totalDuration frames < 2 ^ 64) :
    let account := StateTime.ofFrames frames
    let nanoseconds := fun state => totalDuration (framesIn state frames)
    (account.states.Pairwise (· < ·) ∧
      ∀ state, state ∈ account.states ↔ ∃ frame ∈ frames, frame.state = state) ∧
    (account.entries = account.states.map fun state =>
        (state, Float.ofNat (nanoseconds state) / millisecondLength)) ∧
    (∀ state ∈ account.states,
      account.inState state = Float.ofNat (nanoseconds state) / millisecondLength) ∧
    (account.states.map nanoseconds).sum = totalDuration frames ∧
    (∀ state, (∀ frame ∈ frames, frame.state ≠ state) → account.inState state = 0) ∧
    (∀ permuted, permuted.Perm frames → StateTime.ofFrames permuted = account) ∧
    account.entries = (runningAccount frames).map (fun (state, time) =>
      (state, time.toFloat / millisecondLength)) ∧
    (runningAccount frames).map (fun (state, time) => (state, time.toNat)) =
      account.states.map fun state => (state, nanoseconds state) := by
  intro account nanoseconds
  have states : account.states = statesOf frames := StateTime.states_ofFrames frames
  have times : ∀ state, (timeIn state frames).toFloat = Float.ofNat (nanoseconds state) := by
    intro state
    rw [Number.toFloat_eq_ofNat, toNat_timeIn_of_lt state fits]
  rw [states, runningAccount_eq_map]
  refine ⟨⟨pairwise_statesOf frames, fun state => mem_statesOf⟩, ?_, ?_,
    sum_totalDuration_framesIn frames, ?_, fun permuted => ofFrames_eq_of_perm, ?_, ?_⟩
  · apply List.map_congr_left
    intro state _
    rw [times]
  · intro state member
    rw [StateTime.inState_ofFrames (mem_statesOf.mp member), times]
  · intro state absent
    apply StateTime.inState_of_absent
    rintro ⟨frame, member, inState⟩
    exact absent frame member inState
  · rw [List.map_map]
    rfl
  · rw [List.map_map]
    apply List.map_congr_left
    intro state _
    exact congrArg (state, ·) (toNat_timeIn_of_lt state fits)

/-- As much time as fits into a word, in a state before the default one and, with and without a tag,
in the default one. -/
private def alternating : List Frame :=
  [⟨18446744073709551600, some (-2)⟩, ⟨5, none⟩, ⟨3, some (-2)⟩, ⟨7, some 0⟩]

theorem stateTime_divides_of_alternating :
    totalDuration alternating = 2 ^ 64 - 1 ∧
      (StateTime.ofFrames alternating).states = [-2, 0] ∧
      (StateTime.ofFrames alternating).inState (-2) =
        Float.ofNat 18446744073709551603 / millisecondLength ∧
      (StateTime.ofFrames alternating).inState 0 = Float.ofNat 12 / millisecondLength ∧
      (StateTime.ofFrames alternating).inState 1 = 0 ∧
      StateTime.ofFrames alternating.reverse = StateTime.ofFrames alternating := by
  have states : (StateTime.ofFrames alternating).states = [-2, 0] := by decide
  rcases stateTime_divides alternating (by decide) with ⟨-, -, inState, -, absent, anyOrder, -⟩
  refine ⟨by decide, states, ?_, ?_, absent 1 (by decide), anyOrder _ (List.reverse_perm _)⟩
  · exact inState (-2) (by rw [states]; decide)
  · exact inState 0 (by rw [states]; decide)

end FrameTiming

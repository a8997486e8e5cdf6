import FrameTiming.FrameLog
import FrameTiming.Proofs.Except
import Mathlib.Data.List.Forall2

/-! # What a frame log says

A record denotes a frame if its fields are the literals of one. Reading a log accepts exactly the
records that denote frames, as long as their durations stay within `recordingLimit`.
-/

namespace FrameTiming.FrameLog

open Delimited (Record)
open Number (unsigned? signed?)

/-! ## Records -/

/-- The fields of a record are the literals of a frame. -/
inductive Denotes : LogFormat → List (List Char) → Frame → Prop
  | duration {text : List Char} {duration : UInt64} (literal : unsigned? 10 text = some duration) :
      Denotes .durations [text] ⟨duration, none⟩
  | durationAndState {text stateText : List Char} {duration : UInt64} {state : StateId}
      (literal : unsigned? 10 text = some duration)
      (stateLiteral : signed? stateText = some state) :
      Denotes .durationsAndStates [text, stateText] ⟨duration, some state⟩

theorem durationOf_eq_ok_iff {elapsed : Nat} {text : List Char} {duration : UInt64} :
    frame.durationOf elapsed text = .ok duration ↔
      unsigned? 10 text = some duration ∧ elapsed + duration.toNat ≤ recordingLimit := by
  rw [frame.durationOf]
  cases literal : unsigned? 10 text with
  | none => simp
  | some value =>
      by_cases fits : elapsed + value.toNat ≤ recordingLimit
      · simp only [fits, if_true, Except.ok.injEq, Option.some.injEq]
        constructor
        · rintro rfl
          exact ⟨rfl, fits⟩
        · exact fun both => both.1
      · simp only [fits, if_false, Option.some.injEq, reduceCtorEq, false_iff]
        rintro ⟨rfl, within⟩
        exact fits within

/-- A record is read as a frame exactly if it denotes it and the recording does not get too long. -/
theorem frame_eq_ok_iff {format : LogFormat} {elapsed : Nat} {record : Record} {result : Frame} :
    frame format elapsed record = .ok result ↔
      Denotes format record.fields result ∧ elapsed + result.duration.toNat ≤ recordingLimit := by
  constructor
  · intro read
    unfold frame at read
    split at read
    · rename_i text fields
      rcases bind_eq_ok_iff.mp read with ⟨duration, durationRead, made⟩
      rcases durationOf_eq_ok_iff.mp durationRead with ⟨literal, within⟩
      cases made
      rw [fields]
      exact ⟨.duration literal, within⟩
    · rename_i text stateText fields
      rcases bind_eq_ok_iff.mp read with ⟨duration, durationRead, made⟩
      rcases durationOf_eq_ok_iff.mp durationRead with ⟨literal, within⟩
      split at made
      · rename_i state stateLiteral
        cases made
        rw [fields]
        exact ⟨.durationAndState literal stateLiteral, within⟩
      · cases made
    · cases read
  · rintro ⟨denotes, within⟩
    rcases record with ⟨fields, line⟩
    cases denotes with
    | duration literal =>
        have durationRead := durationOf_eq_ok_iff.mpr ⟨literal, within⟩
        simp [frame, durationRead, bind, Except.bind]
    | durationAndState literal stateLiteral =>
        have durationRead := durationOf_eq_ok_iff.mpr ⟨literal, within⟩
        simp [frame, durationRead, stateLiteral, bind, Except.bind]

theorem frame_eq_tooLong {format : LogFormat} {elapsed : Nat} {record : Record} {result : Frame}
    (denotes : Denotes format record.fields result)
    (beyond : recordingLimit < elapsed + result.duration.toNat) :
    frame format elapsed record =
      .error (.tooLong result.duration (recordingLimit / hourLength)) := by
  rcases record with ⟨fields, line⟩
  cases denotes with
  | duration literal =>
      simp [frame, frame.durationOf, literal, Nat.not_le_of_gt beyond, bind, Except.bind]
  | durationAndState literal stateLiteral =>
      simp [frame, frame.durationOf, literal, Nat.not_le_of_gt beyond, bind, Except.bind]

/-! ## Logs -/

@[simp] theorem totalDuration_cons (frame : Frame) (rest : List Frame) :
    totalDuration (frame :: rest) = frame.duration.toNat + totalDuration rest :=
  rfl

theorem totalDuration_le_of_sublist {part frames : List Frame} (sublist : part.Sublist frames) :
    totalDuration part ≤ totalDuration frames := by
  induction sublist with
  | slnil => exact Nat.le_refl _
  | cons frame _ induction =>
      rw [totalDuration_cons]
      omega
  | cons_cons frame _ induction =>
      rw [totalDuration_cons, totalDuration_cons]
      omega

theorem frames_cons_eq_ok_iff {format : LogFormat} {source : Path} {elapsed : Nat}
    {record : Record} {rest : List (Except TableFault Record)} {result : List Frame} :
    frames format source elapsed (.ok record :: rest) = .ok result ↔
      ∃ value values, frame format elapsed record = .ok value ∧
        frames format source (elapsed + value.duration.toNat) rest = .ok values ∧
        result = value :: values := by
  rw [frames]
  cases first : frame format elapsed record with
  | error fault => simp
  | ok value => simp [map_eq_ok_iff]

/-- Reading goes on behind records that were read, with the time that their frames took. -/
theorem frames_append {format : LogFormat} {source : Path} {elapsed : Nat}
    {before : List (Except TableFault Record)} {read : List Frame}
    (accepted : frames format source elapsed before = .ok read)
    (rest : List (Except TableFault Record)) :
    frames format source elapsed (before ++ rest) =
      (frames format source (elapsed + totalDuration read) rest).map (read ++ ·) := by
  induction before generalizing elapsed read with
  | nil =>
      cases accepted
      change frames format source elapsed rest = (frames format source elapsed rest).map id
      cases frames format source elapsed rest <;> rfl
  | cons next before induction =>
      cases next with
      | error fault => cases accepted
      | ok record =>
          rcases frames_cons_eq_ok_iff.mp accepted with ⟨first, others, head, tail, rfl⟩
          rw [List.cons_append, frames, head]
          dsimp only
          rw [induction tail, totalDuration_cons, Nat.add_assoc]
          cases frames format source (elapsed + (first.duration.toNat + totalDuration others)) rest
          · rfl
          · rfl

/-- A list of records is read as some frames exactly if every record could be decoded, they denote
the frames one by one, and all of them together fit into a recording. -/
theorem frames_eq_ok_iff {format : LogFormat} {source : Path} {elapsed : Nat}
    {records : List (Except TableFault Record)} {result : List Frame}
    (started : elapsed ≤ recordingLimit) :
    frames format source elapsed records = .ok result ↔
      ∃ decoded : List Record, records = decoded.map .ok ∧
        List.Forall₂ (fun record frame => Denotes format record.fields frame) decoded result ∧
        elapsed + totalDuration result ≤ recordingLimit := by
  induction records generalizing elapsed result with
  | nil =>
      constructor
      · intro read
        cases read
        exact ⟨[], rfl, .nil, started⟩
      · rintro ⟨decoded, same, denotes, -⟩
        cases List.map_eq_nil_iff.mp same.symm
        cases denotes
        rfl
  | cons record rest induction =>
      cases record with
      | error fault =>
          simp only [frames, reduceCtorEq, false_iff]
          rintro ⟨decoded, same, -⟩
          cases decoded <;> simp at same
      | ok record =>
          rw [frames_cons_eq_ok_iff]
          constructor
          · rintro ⟨value, values, first, others, rfl⟩
            rcases frame_eq_ok_iff.mp first with ⟨denotes, within⟩
            rcases (induction within).mp others with ⟨decoded, rfl, restDenotes, total⟩
            refine ⟨record :: decoded, rfl, .cons denotes restDenotes, ?_⟩
            rw [totalDuration_cons]
            omega
          · rintro ⟨decoded, same, denotes, total⟩
            rcases denotes with _ | @⟨head, value, decodedRest, values, first, others⟩
            · cases same
            · simp only [List.map_cons, List.cons.injEq, Except.ok.injEq] at same
              rcases same with ⟨rfl, rfl⟩
              rw [totalDuration_cons] at total
              have within : elapsed + value.duration.toNat ≤ recordingLimit := by omega
              exact ⟨value, values, frame_eq_ok_iff.mpr ⟨first, within⟩,
                (induction within).mpr ⟨decodedRest, rfl, others, by omega⟩, rfl⟩

/-- An accepted log lasts no longer than a recording may. -/
theorem totalDuration_le_of_parse {format : LogFormat} {source : Path} {bytes : List UInt8}
    {recorded : List Frame} (accepted : parse format source bytes = .ok recorded) :
    totalDuration recorded ≤ recordingLimit := by
  rcases (frames_eq_ok_iff (Nat.zero_le _)).mp accepted with ⟨decoded, -, -, total⟩
  omega

end FrameTiming.FrameLog

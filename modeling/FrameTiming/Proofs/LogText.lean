import FrameTiming.Proofs.Delimited
import FrameTiming.Proofs.FrameLog
import FrameTiming.Proofs.Number.Literal

/-! # Logs of frames

The log that is written for some frames is read as these frames, as far as its format can tell. What
was read from a log, and every part of it, is told completely.
-/

namespace FrameTiming.FrameLog

open Delimited (Plain Writable Record)
open Number (unsigned?_toString signed?_toString)
open Text (Utf8.encode)

/-! ## Records -/

theorem writable_fields (format : LogFormat) (frame : Frame) :
    Writable ((fields format frame).map String.toList) := by
  have duration := Number.numeral_toString frame.duration.toNat
  have plain := Delimited.plain_of_numeral (by decide) duration
  have state := Number.integer_toString frame.state.toInt
  cases format with
  | durations =>
      refine ⟨List.cons_ne_nil _ _, ?_, ?_⟩
      · exact List.forall_mem_singleton.mpr duration.ne_nil
      · exact List.forall_mem_singleton.mpr plain
  | durationsAndStates =>
      refine ⟨List.cons_ne_nil _ _, ?_, ?_⟩
      · exact List.forall_mem_cons.mpr ⟨duration.ne_nil, List.forall_mem_singleton.mpr state.ne_nil⟩
      · refine List.forall_mem_cons.mpr ⟨plain, ?_⟩
        exact List.forall_mem_singleton.mpr (Delimited.plain_of_integer state)

theorem writable_header (format : LogFormat) : Writable (format.header.map String.toList) := by
  have plain : ∀ text ∈ format.header.map String.toList,
      text.all (fun char => decide (Plain char)) = true := by
    cases format <;> decide
  refine ⟨by cases format <;> decide, by cases format <;> decide, ?_⟩
  intro text member char inside
  exact of_decide_eq_true (List.all_eq_true.mp (plain text member) char inside)

/-! ## Frames -/

/-- What a log tells about a frame. -/
def asLogged : LogFormat → Frame → Frame
  | .durations, frame => ⟨frame.duration, none⟩
  | .durationsAndStates, frame => ⟨frame.duration, some frame.state⟩

theorem duration_asLogged (format : LogFormat) (frame : Frame) :
    (asLogged format frame).duration = frame.duration := by
  cases format <;> rfl

theorem denotes_fields (format : LogFormat) (frame : Frame) :
    Denotes format ((fields format frame).map String.toList) (asLogged format frame) := by
  cases format with
  | durations => exact .duration (unsigned?_toString frame.duration)
  | durationsAndStates =>
      exact .durationAndState (unsigned?_toString frame.duration) (signed?_toString frame.state)

theorem Denotes.asLogged_eq {format : LogFormat} {texts : List (List Char)} {frame : Frame}
    (denotes : Denotes format texts frame) : asLogged format frame = frame := by
  cases denotes <;> rfl

/-! ## Logs -/

variable {format : LogFormat} {frames : List Frame}

/-- The records of a log, below its header. -/
def recordsOf (format : LogFormat) (frames : List Frame) : List Record :=
  frames.mapIdx fun index frame => ⟨(fields format frame).map String.toList, index + 2⟩

theorem read_text (format : LogFormat) (frames : List Frame) :
    (Delimited.read (Utf8.encode (text format frames).toList)).tail =
      (recordsOf format frames).map .ok := by
  have writable : ∀ texts ∈ format.header :: frames.map (fields format),
      Writable (texts.map String.toList) := by
    rw [List.forall_mem_cons]
    refine ⟨writable_header format, ?_⟩
    intro texts member
    rcases List.mem_map.mp member with ⟨frame, -, rfl⟩
    exact writable_fields format frame
  rw [text, Delimited.read_text writable, List.mapIdx_cons, List.tail_cons]
  apply List.ext_getElem (by simp [recordsOf])
  intro index within alsoWithin
  simp [recordsOf]

theorem totalDuration_asLogged (format : LogFormat) (frames : List Frame) :
    totalDuration (frames.map (asLogged format)) = totalDuration frames := by
  simp only [totalDuration, List.foldr_map, duration_asLogged]

/-- A log that is not too long is read as what it tells about its frames. -/
theorem parse_text (source : Path) (short : totalDuration frames ≤ recordingLimit) :
    parse format source (Utf8.encode (text format frames).toList) =
      .ok (frames.map (asLogged format)) := by
  rw [parse, read_text, frames_eq_ok_iff (Nat.zero_le _)]
  refine ⟨recordsOf format frames, rfl, ?_, ?_⟩
  · rw [List.forall₂_iff_get]
    refine ⟨by simp [recordsOf], ?_⟩
    intro index within alsoWithin
    simpa [recordsOf] using denotes_fields format _
  · rwa [totalDuration_asLogged, Nat.zero_add]

/-- Frames that were read lose nothing in a log of the same format. -/
theorem asLogged_of_parse {source : Path} {bytes : List UInt8} {recorded : List Frame}
    (accepted : parse format source bytes = .ok recorded) :
    ∀ frame ∈ recorded, asLogged format frame = frame := by
  rcases (frames_eq_ok_iff (Nat.zero_le _)).mp accepted with ⟨decoded, -, denotes, -⟩
  clear accepted
  induction denotes with
  | nil => exact fun _ none => absurd none List.not_mem_nil
  | cons first others induction => exact List.forall_mem_cons.mpr ⟨first.asLogged_eq, induction⟩

/-- A log of consecutive frames of a log is read as these frames. -/
theorem parse_text_of_isInfix {source : Path} {bytes : List UInt8} {recorded : List Frame}
    (accepted : parse format source bytes = .ok recorded) (part : frames <:+: recorded)
    (path : Path) :
    parse format path (Utf8.encode (text format frames).toList) = .ok frames := by
  have short : totalDuration frames ≤ recordingLimit :=
    Nat.le_trans (totalDuration_le_of_sublist part.sublist) (totalDuration_le_of_parse accepted)
  have same : frames.map (asLogged format) = frames := by
    have told : ∀ frame ∈ frames, asLogged format frame = id frame :=
      fun frame member => asLogged_of_parse accepted frame (part.subset member)
    rw [List.map_congr_left told, List.map_id]
  rw [parse_text path short, same]

/-- The path of a log only names it in errors. -/
theorem parse_eq_ok_of_parse {source : Path} {bytes : List UInt8} {recorded : List Frame}
    (accepted : parse format source bytes = .ok recorded) (path : Path) :
    parse format path bytes = .ok recorded :=
  (frames_eq_ok_iff (Nat.zero_le _)).mpr ((frames_eq_ok_iff (Nat.zero_le _)).mp accepted)

end FrameTiming.FrameLog

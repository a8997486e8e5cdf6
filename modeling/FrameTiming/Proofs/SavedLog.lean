import FrameTiming.Proofs.LogText
import FrameTiming.Proofs.Machine

/-! # Logs that were saved

A recording can be written whatever its length, but it is read only if it fits into one. So saving
and reading undo each other up to what the format tells, and a recording that is too long is refused
on the line where it gets there.
-/

namespace FrameTiming.FrameLog

open Host (Machine)
open Text (Utf8.encode)

variable {format : LogFormat} {frames before after : List Frame} {frame : Frame}

/-! ## Recordings that are too long -/

/-- A recording is too long from some frame on. -/
theorem exists_overrun {elapsed : ℕ} (started : elapsed ≤ recordingLimit)
    (beyond : recordingLimit < elapsed + totalDuration frames) :
    ∃ before frame after, frames = before ++ frame :: after ∧
      elapsed + totalDuration before ≤ recordingLimit ∧
      recordingLimit < elapsed + totalDuration before + frame.duration.toNat := by
  induction frames generalizing elapsed with
  | nil => exact absurd beyond (Nat.not_lt_of_le started)
  | cons frame rest induction =>
      rw [totalDuration_cons, ← Nat.add_assoc] at beyond
      by_cases fits : elapsed + frame.duration.toNat ≤ recordingLimit
      · rcases induction fits beyond with ⟨before, last, after, rfl, within, overruns⟩
        refine ⟨frame :: before, last, after, rfl, ?_, ?_⟩
        · rwa [totalDuration_cons, ← Nat.add_assoc]
        · rwa [totalDuration_cons, ← Nat.add_assoc]
      · exact ⟨[], frame, rest, rfl, started, Nat.lt_of_not_le fits⟩

theorem recordsOf_append_cons (format : LogFormat) (before : List Frame) (frame : Frame)
    (after : List Frame) :
    ∃ later, recordsOf format (before ++ frame :: after) =
      recordsOf format before ++
        ⟨(fields format frame).map String.toList, before.length + 2⟩ :: later := by
  rw [recordsOf, List.mapIdx_append, List.mapIdx_cons, Nat.zero_add]
  exact ⟨_, rfl⟩

/-- The log of a recording is refused on the line of the first frame with which it is too long. -/
theorem parse_text_of_overrun (source : Path) (fits : totalDuration before ≤ recordingLimit)
    (overruns : recordingLimit < totalDuration before + frame.duration.toNat) :
    parse format source (Utf8.encode (text format (before ++ frame :: after)).toList) =
      .error (.malformedRecord source (before.length + 2)
        (.tooLong frame.duration (recordingLimit / hourLength))) := by
  have accepted : parse format source _ = _ := parse_text source fits
  rw [parse, read_text] at accepted ⊢
  rcases recordsOf_append_cons format before frame after with ⟨later, records⟩
  have refused : FrameLog.frame format (totalDuration (before.map (asLogged format)))
      ⟨(fields format frame).map String.toList, before.length + 2⟩ =
        .error (.tooLong (asLogged format frame).duration (recordingLimit / hourLength)) := by
    apply frame_eq_tooLong (denotes_fields format frame)
    rwa [totalDuration_asLogged, duration_asLogged]
  rw [records, List.map_append, List.map_cons, frames_append accepted, Nat.zero_add,
    FrameLog.frames, refused, duration_asLogged]
  rfl

/-- A recording that is too long is refused for the frame with which it gets there. -/
theorem parse_text_of_beyond (source : Path) (beyond : recordingLimit < totalDuration frames) :
    ∃ before frame after, frames = before ++ frame :: after ∧
      totalDuration before ≤ recordingLimit ∧
      recordingLimit < totalDuration before + frame.duration.toNat ∧
      parse format source (Utf8.encode (text format frames).toList) =
        .error (.malformedRecord source (before.length + 2) (.tooLong frame.duration 24)) := by
  rcases exists_overrun (Nat.zero_le _) (by rwa [Nat.zero_add]) with
    ⟨before, frame, after, rfl, fits, overruns⟩
  rw [Nat.zero_add] at fits overruns
  exact ⟨before, frame, after, rfl, fits, overruns, parse_text_of_overrun source fits overruns⟩

theorem parse_text_eq_ok_iff {source : Path} {recorded : List Frame} :
    parse format source (Utf8.encode (text format frames).toList) = .ok recorded ↔
      totalDuration frames ≤ recordingLimit ∧ recorded = frames.map (asLogged format) := by
  constructor
  · intro read
    have short : totalDuration frames ≤ recordingLimit := by
      by_contra beyond
      rcases parse_text_of_beyond source (Nat.lt_of_not_le beyond) with
        ⟨before, frame, after, -, -, -, refused⟩
      rw [read] at refused
      cases refused
    rw [parse_text source short, Except.ok.injEq] at read
    exact ⟨short, read.symm⟩
  · rintro ⟨short, rfl⟩
    exact parse_text source short

/-! ## Texts -/

theorem fields_asLogged (format : LogFormat) (frame : Frame) :
    fields format (asLogged format frame) = fields format frame := by
  cases format <;> rfl

/-- What a log tells about frames is all that goes into it. -/
theorem text_map_asLogged (format : LogFormat) (frames : List Frame) :
    text format (frames.map (asLogged format)) = text format frames := by
  simp only [text, List.map_map, Function.comp_def, fields_asLogged]

/-! ## Files -/

/-- A log that was saved is read from the text that was written. -/
theorem read_of_save {machine after : Machine} {directory path : Path} {name : String}
    (saved : machine.perform (save format frames directory name) = (.ok path, after)) :
    path = directory.join ⟨name⟩ ∧ after.perform (read format path) =
      (parse format path (Utf8.encode (text format frames).toList), after) := by
  rw [perform_save] at saved
  split at saved
  · cases saved
  · rename_i prepared made
    split at saved
    · cases saved
    · rename_i last written
      cases saved
      refine ⟨rfl, perform_readLog_of_openFile ?_⟩
      rcases Machine.change_eq_ok_iff.mp written with ⟨files, wrote, rfl⟩
      exact Host.FileTree.openFile_of_writeFile wrote

/-! ## Writing and reading -/

/-- Writing frames as a log and reading the log are inverse up to the format. The log of any frames
is read exactly if all of them fit into a recording, and tells the same durations in the same order,
with no state or the state of each frame. Otherwise it is refused on the line of the first frame
with which they do not fit. Frames that were read from a log come back unchanged, and what comes
back is written as the same text. The same holds of files. -/
theorem savedLog_exact (format : LogFormat) (frames : List Frame) (source : Path) :
    let bytes := Utf8.encode (text format frames).toList
    ((∃ recorded, parse format source bytes = .ok recorded) ↔
      totalDuration frames ≤ recordingLimit) ∧
    (totalDuration frames ≤ recordingLimit →
      parse format source bytes = .ok (frames.map (asLogged format))) ∧
    (recordingLimit < totalDuration frames → ∃ before frame after,
      frames = before ++ frame :: after ∧ totalDuration before ≤ recordingLimit ∧
        recordingLimit < totalDuration before + frame.duration.toNat ∧
        parse format source bytes =
          .error (.malformedRecord source (before.length + 2) (.tooLong frame.duration 24))) ∧
    (∀ origin content, parse format origin content = .ok frames →
      parse format source bytes = .ok frames) ∧
    (∀ recorded, parse format source bytes = .ok recorded →
      text format recorded = text format frames) ∧
    ∀ (machine after : Machine) directory name path,
      machine.perform (save format frames directory name) = (.ok path, after) →
        path = directory.join ⟨name⟩ ∧
          after.perform (read format path) = (parse format path bytes, after) := by
  intro bytes
  refine ⟨?_, parse_text source, parse_text_of_beyond source, ?_, ?_, ?_⟩
  · simp only [bytes, parse_text_eq_ok_iff, exists_and_left, exists_eq, and_true]
  · intro origin content recorded
    exact parse_text_of_isInfix recorded (List.infix_refl frames) source
  · intro recorded read
    rw [(parse_text_eq_ok_iff.mp read).2]
    exact text_map_asLogged format frames
  · intro machine after directory name path
    exact read_of_save

/-- A recording that takes up the limit to the nanosecond. -/
private def fullDay : List Frame :=
  [⟨86399999999999, some (-1)⟩, ⟨1, none⟩]

theorem savedLog_exact_of_fullDay :
    let saved := (Machine.start .empty []).perform
      (save .durationsAndStates fullDay ⟨"out"⟩ "day.log")
    let longer := Utf8.encode (text .durations (fullDay ++ [⟨18446744073709551615, none⟩])).toList
    saved.1 = .ok ⟨"out/day.log"⟩ ∧
      saved.2.perform (read .durationsAndStates ⟨"out/day.log"⟩) =
        (.ok [⟨86399999999999, some (-1)⟩, ⟨1, some 0⟩], saved.2) ∧
      ¬∃ recorded, parse .durations ⟨"longer.log"⟩ longer = .ok recorded := by
  intro saved longer
  have path : saved.1 = .ok ⟨"out/day.log"⟩ := by decide +kernel
  have exact := savedLog_exact .durationsAndStates fullDay ⟨"out/day.log"⟩
  have file := (exact.2.2.2.2.2 _ _ _ _ _ (Prod.ext path rfl)).2
  rw [exact.2.1 (by decide)] at file
  refine ⟨path, file, ?_⟩
  rw [(savedLog_exact .durations _ ⟨"longer.log"⟩).1]
  decide

end FrameTiming.FrameLog

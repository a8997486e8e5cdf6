import FrameTiming.Proofs.LogRecords
import FrameTiming.Proofs.Rows

/-! # Malformed rows

A malformed row of a log is reported with the line where the reader stood before it. That is the line
of the row only where the row above ended in a line feed alone and no blank line is in between.
-/

namespace FrameTiming.FrameLog

open Delimited (Record RawRecord RowBelow PairedReturns lineBehind lineBehind_gap records decodeFields
  exists_rowBelow)

variable {format : LogFormat} {source : Path} {bytes : List UInt8} {line : ℕ} {fault : RecordFault}

/-! ## Logs -/

/-- A record is malformed exactly if those before it are frames, and it is none behind them. -/
theorem frames_eq_malformed_iff {elapsed : ℕ} {records : List (Except TableFault Record)} :
    frames format source elapsed records = .error (.malformedRecord source line fault) ↔
      ∃ before record after read, records = before ++ .ok record :: after ∧
        frames format source elapsed before = .ok read ∧
        frame format (elapsed + totalDuration read) record = .error fault ∧
        line = record.line := by
  constructor
  · intro refused
    induction records generalizing elapsed with
    | nil => cases refused
    | cons first rest induction =>
        rcases first with tableFault | first
        · cases refused
        rw [frames] at refused
        cases outcome : frame format elapsed first with
        | error found =>
            rw [outcome] at refused
            cases refused
            exact ⟨[], first, rest, [], rfl, rfl, outcome, rfl⟩
        | ok value =>
            rw [outcome, map_eq_error_iff] at refused
            rcases induction refused with ⟨before, record, after, read, rfl, earlier, faulty, rfl⟩
            refine ⟨.ok first :: before, record, after, value :: read, rfl, ?_, ?_, rfl⟩
            · rw [frames_cons_eq_ok_iff]
              exact ⟨value, read, outcome, earlier, rfl⟩
            · rwa [totalDuration_cons, ← Nat.add_assoc]
  · intro first
    rcases first with ⟨before, record, after, read, rfl, earlier, faulty, rfl⟩
    rw [frames_append earlier, frames, faulty]
    rfl

theorem parse_eq_malformed_iff (unquoted : 0x22 ∉ bytes) :
    parse format source bytes = .error (.malformedRecord source line fault) ↔
      ∃ above lineEnd gap row below read fields, RowBelow bytes above lineEnd gap row below ∧
        parse format source above = .ok read ∧ decodeFields 0 (row.splitOn 0x2c) = .ok fields ∧
        Faulty (totalDuration read) format fields fault ∧
        line = lineBehind (above ++ [lineEnd]) := by
  constructor
  · intro refused
    rw [parse, frames_eq_malformed_iff] at refused
    rcases refused with ⟨before, record, after, read, split, earlier, faulty, rfl⟩
    rcases heads : Delimited.read bytes with _ | ⟨first, others⟩
    · rw [heads] at split
      simp at split
    · rw [heads, List.tail_cons] at split
      rw [split, ← List.cons_append, Delimited.read, List.mapIdx_eq_append_iff] at heads
      rcases heads with ⟨rawBefore, rest, joined, sameBefore, sameRest⟩
      rcases List.mapIdx_eq_cons_iff.mp sameRest with ⟨raw, rawAfter, rfl, decoded, -⟩
      have header : rawBefore ≠ [] := by
        rintro rfl
        cases sameBefore
      rcases exists_rowBelow unquoted joined header with
        ⟨above, lineEnd, gap, row, below, found, rfl, cut, place⟩
      rcases RawRecord.decode_eq_ok_iff.mp decoded with ⟨fields, sameLine⟩
      refine ⟨above, lineEnd, gap, row, below, read, record.fields, found, ?_, by rwa [← cut], ?_, ?_⟩
      · rwa [parse, Delimited.read, sameBefore, List.tail_cons]
      · rwa [Nat.zero_add, frame_eq_error_iff] at faulty
      · rw [sameLine, place]
  · intro malformed
    rcases malformed with
      ⟨above, lineEnd, gap, row, below, read, fields, found, earlier, decoded, faulty, rfl⟩
    rcases found.exists_record unquoted with ⟨raw, after, joined, cut, place⟩
    have decodedRecord : raw.decode (records above).length = .ok ⟨fields, raw.position.line⟩ := by
      rw [RawRecord.decode_eq_ok_iff, cut]
      exact ⟨decoded, rfl⟩
    have header : (records above).mapIdx RawRecord.decode ≠ [] := by
      rw [Ne, List.mapIdx_eq_nil_iff]
      exact found.header
    rw [parse, frames_eq_malformed_iff, Delimited.read, joined, List.mapIdx_append,
      List.tail_append_of_ne_nil header, List.mapIdx_cons, Nat.zero_add, decodedRecord]
    refine ⟨_, _, _, read, rfl, earlier, ?_, place.symm⟩
    rw [Nat.zero_add, frame_eq_error_iff]
    exact faulty

/-- A log without quotes is refused for its first malformed row, with the number of the line that
starts right behind the byte that ended the row above. That is too little by the line feeds between
this byte and the row. Where lines end in line feeds, perhaps behind carriage returns, it is the line
of the row exactly if the row above ended in a line feed alone and no blank line is in between. -/
theorem malformedRow_placed (format : LogFormat) (source : Path) (bytes : List UInt8)
    (unquoted : 0x22 ∉ bytes) :
    (∀ line fault, parse format source bytes = .error (.malformedRecord source line fault) ↔
      ∃ above lineEnd gap row below read fields, RowBelow bytes above lineEnd gap row below ∧
        parse format source above = .ok read ∧ decodeFields 0 (row.splitOn 0x2c) = .ok fields ∧
        Faulty (totalDuration read) format fields fault ∧
        line = lineBehind (above ++ [lineEnd])) ∧
    ∀ above lineEnd gap row below, RowBelow bytes above lineEnd gap row below →
      lineBehind (above ++ lineEnd :: gap) = lineBehind (above ++ [lineEnd]) + gap.count 0x0a ∧
        (PairedReturns bytes →
          (lineBehind (above ++ [lineEnd]) = lineBehind (above ++ lineEnd :: gap) ↔
            lineEnd = 0x0a ∧ gap = [])) := by
  constructor
  · exact fun line fault => parse_eq_malformed_iff unquoted
  · intro above lineEnd gap row below found
    exact ⟨lineBehind_gap above lineEnd gap, found.lineBehind_eq_iff⟩

/-- Two fields for a duration alone, on the third line. -/
private def miscountedText : List UInt8 :=
  Text.Utf8.encode "ns\n5\n7,1\n".toList

private def framedText : List UInt8 :=
  Text.Utf8.encode "ns\n5".toList

theorem malformedRow_placed_of_miscounted :
    parse .durations ⟨"a.log"⟩ miscountedText =
        .error (.malformedRecord ⟨"a.log"⟩ 3 (.fieldCount 1 2)) ∧
      lineBehind (framedText ++ [0x0a]) = 3 := by
  have unquoted : 0x22 ∉ miscountedText := by decide
  have paired : PairedReturns miscountedText := by decide
  have found : RowBelow miscountedText framedText 0x0a [] [0x37, 0x2c, 0x31] [0x0a] := by decide +kernel
  have earlier : parse .durations ⟨"a.log"⟩ framedText = .ok [⟨5, none⟩] := by decide +kernel
  have decoded : decodeFields 0 (List.splitOn 0x2c [0x37, 0x2c, 0x31]) = .ok [['7'], ['1']] := by
    decide +kernel
  have placed := malformedRow_placed .durations ⟨"a.log"⟩ miscountedText unquoted
  have same := ((placed.2 _ _ _ _ _ found).2 paired).mpr ⟨rfl, rfl⟩
  have line : lineBehind (framedText ++ [0x0a]) = 3 := by decide
  rw [line] at same
  refine ⟨(placed.1 3 (.fieldCount 1 2)).mpr ?_, same.symm⟩
  exact ⟨_, _, _, _, _, _, _, found, earlier, decoded, .fieldCount (by decide), line.symm⟩

/-- A malformed row on the fourth line, below a frame and a blank line. -/
private def blankLineText : List UInt8 :=
  Text.Utf8.encode "ns\n5\n\nx\n".toList

/-- A malformed row on the second line, behind a line end of two bytes. -/
private def returnText : List UInt8 :=
  Text.Utf8.encode "ns\r\nx\r\n".toList

theorem malformedRow_misplaced :
    (0x22 ∉ blankLineText ∧ PairedReturns blankLineText ∧
      parse .durations ⟨"a.log"⟩ blankLineText =
        .error (.malformedRecord ⟨"a.log"⟩ 3 (.invalidDuration "x")) ∧
      RowBelow blankLineText framedText 0x0a [0x0a] [0x78] [0x0a] ∧
      parse .durations ⟨"a.log"⟩ framedText = .ok [⟨5, none⟩] ∧
      lineBehind (framedText ++ [0x0a, 0x0a]) = 4) ∧
    0x22 ∉ returnText ∧ PairedReturns returnText ∧
      parse .durations ⟨"a.log"⟩ returnText =
        .error (.malformedRecord ⟨"a.log"⟩ 1 (.invalidDuration "x")) ∧
      RowBelow returnText [0x6e, 0x73] 0x0d [0x0a] [0x78] [0x0d, 0x0a] ∧
      lineBehind ([0x6e, 0x73] ++ [0x0d, 0x0a]) = 2 := by
  have blank : RowBelow blankLineText framedText 0x0a [0x0a] [0x78] [0x0a] := by decide +kernel
  have returned : RowBelow returnText [0x6e, 0x73] 0x0d [0x0a] [0x78] [0x0d, 0x0a] := by decide +kernel
  exact ⟨⟨by decide, by decide, by decide +kernel, blank, by decide +kernel, by decide⟩,
    by decide, by decide, by decide +kernel, returned, by decide⟩

end FrameTiming.FrameLog

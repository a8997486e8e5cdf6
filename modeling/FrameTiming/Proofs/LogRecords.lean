import FrameTiming.Proofs.FrameLog
import FrameTiming.Proofs.Number.Literal

/-! # A frame log record by record

A log is accepted if each of its records spells a frame and the frames fit into a recording. Any
other log is refused for the first of its records with a fault, and in that record for the first
fault, whatever comes behind.
-/

namespace FrameTiming.FrameLog

open Delimited (Record)
open Number (Natural Integer unsigned? signed? unsigned?_eq_some_iff signed?_eq_some_iff)

variable {format : LogFormat} {source : Path} {elapsed : ℕ} {record : Record} {fault : RecordFault}

/-! ## One record -/

/-- The fields of a record are a frame, written as whole numbers that fit into words. -/
inductive Spells : LogFormat → List (List Char) → Frame → Prop
  | duration {text : List Char} {duration : UInt64} (natural : Natural 10 text duration.toNat) :
      Spells .durations [text] ⟨duration, none⟩
  | durationAndState {text stateText : List Char} {duration : UInt64} {state : StateId}
      (natural : Natural 10 text duration.toNat) (integer : Integer stateText state.toInt) :
      Spells .durationsAndStates [text, stateText] ⟨duration, some state⟩

/-- What is wrong with the fields of a record behind frames that last `elapsed` nanoseconds. Each
fault is one only where there is none of those above it. -/
inductive Faulty (elapsed : ℕ) : LogFormat → List (List Char) → RecordFault → Prop
  | fieldCount {format : LogFormat} {fields : List (List Char)}
      (miscounted : fields.length ≠ format.fieldCount) :
      Faulty elapsed format fields (.fieldCount format.fieldCount fields.length)
  | duration {format : LogFormat} {text : List Char} {others : List (List Char)}
      (counted : (text :: others).length = format.fieldCount)
      (unspelled : ∀ duration : UInt64, ¬Natural 10 text duration.toNat) :
      Faulty elapsed format (text :: others) (.invalidDuration (String.ofList text))
  | length {format : LogFormat} {text : List Char} {others : List (List Char)} {duration : UInt64}
      (counted : (text :: others).length = format.fieldCount)
      (natural : Natural 10 text duration.toNat)
      (beyond : recordingLimit < elapsed + duration.toNat) :
      Faulty elapsed format (text :: others) (.tooLong duration 24)
  | state {text stateText : List Char} {duration : UInt64}
      (natural : Natural 10 text duration.toNat)
      (within : elapsed + duration.toNat ≤ recordingLimit)
      (unspelled : ∀ state : StateId, ¬Integer stateText state.toInt) :
      Faulty elapsed .durationsAndStates [text, stateText] (.invalidState (String.ofList stateText))

theorem denotes_iff_spells {fields : List (List Char)} {frame : Frame} :
    Denotes format fields frame ↔ Spells format fields frame := by
  have decimal : 10 ≤ 16 := by decide
  constructor
  · intro denotes
    cases denotes with
    | duration literal => exact .duration ((unsigned?_eq_some_iff decimal).mp literal)
    | durationAndState literal stateLiteral =>
        exact .durationAndState ((unsigned?_eq_some_iff decimal).mp literal)
          (signed?_eq_some_iff.mp stateLiteral)
  · intro spells
    cases spells with
    | duration natural => exact .duration ((unsigned?_eq_some_iff decimal).mpr natural)
    | durationAndState natural integer =>
        exact .durationAndState ((unsigned?_eq_some_iff decimal).mpr natural)
          (signed?_eq_some_iff.mpr integer)

theorem durationOf_eq_error_iff {text : List Char} :
    frame.durationOf elapsed text = .error fault ↔
      (∀ duration : UInt64, ¬Natural 10 text duration.toNat) ∧
          fault = .invalidDuration (String.ofList text) ∨
        ∃ duration : UInt64, Natural 10 text duration.toNat ∧
          recordingLimit < elapsed + duration.toNat ∧ fault = .tooLong duration 24 := by
  have hours : recordingLimit / hourLength = 24 := by decide
  simp only [← unsigned?_eq_some_iff (by decide : 10 ≤ 16)]
  rw [frame.durationOf, hours]
  cases literal : unsigned? 10 text with
  | none => simp [eq_comm]
  | some value =>
      by_cases fits : elapsed + value.toNat ≤ recordingLimit
      · simp [fits, Nat.not_lt_of_le fits]
      · simp [fits, Nat.lt_of_not_le fits, eq_comm]

theorem frame_of_miscounted (miscounted : record.fields.length ≠ format.fieldCount) :
    frame format elapsed record =
      .error (.fieldCount format.fieldCount record.fields.length) := by
  unfold frame
  split
  · rename_i fields
    rw [fields] at miscounted
    exact absurd rfl miscounted
  · rename_i fields
    rw [fields] at miscounted
    exact absurd rfl miscounted
  · rfl

/-- A record is refused for a fault exactly if it has it. -/
theorem frame_eq_error_iff :
    frame format elapsed record = .error fault ↔ Faulty elapsed format record.fields fault := by
  by_cases counted : record.fields.length = format.fieldCount
  · rcases record with ⟨fields, line⟩
    dsimp only at counted ⊢
    cases format with
    | durations =>
        rcases List.length_eq_one_iff.mp counted with ⟨text, rfl⟩
        simp only [frame, bind_eq_error_iff, durationOf_eq_error_iff, reduceCtorEq, and_false,
          exists_false, or_false]
        constructor
        · intro refused
          rcases refused with ⟨unspelled, rfl⟩ | ⟨duration, natural, beyond, rfl⟩
          · exact .duration counted unspelled
          · exact .length counted natural beyond
        · intro faulty
          cases faulty with
          | fieldCount miscounted => exact absurd counted miscounted
          | duration _ unspelled => exact .inl ⟨unspelled, rfl⟩
          | length _ natural beyond => exact .inr ⟨_, natural, beyond, rfl⟩
    | durationsAndStates =>
        rcases List.length_eq_two.mp counted with ⟨text, stateText, rfl⟩
        simp only [frame, bind_eq_error_iff, durationOf_eq_error_iff, durationOf_eq_ok_iff,
          unsigned?_eq_some_iff (by decide : 10 ≤ 16)]
        constructor
        · intro refused
          rcases refused with (⟨unspelled, rfl⟩ | ⟨duration, natural, beyond, rfl⟩) |
            ⟨duration, ⟨natural, within⟩, stateRefused⟩
          · exact .duration counted unspelled
          · exact .length counted natural beyond
          · split at stateRefused
            · cases stateRefused
            · rename_i unread
              cases stateRefused
              refine .state natural within fun state integer => ?_
              rw [signed?_eq_some_iff.mpr integer] at unread
              cases unread
        · intro faulty
          cases faulty with
          | fieldCount miscounted => exact absurd counted miscounted
          | duration _ unspelled => exact .inl (.inl ⟨unspelled, rfl⟩)
          | length _ natural beyond => exact .inl (.inr ⟨_, natural, beyond, rfl⟩)
          | state natural within unspelled =>
              refine .inr ⟨_, ⟨natural, within⟩, ?_⟩
              split
              · rename_i state read
                exact absurd (signed?_eq_some_iff.mp read) (unspelled state)
              · rfl
  · rw [frame_of_miscounted counted]
    constructor
    · intro refused
      cases refused
      exact .fieldCount counted
    · intro faulty
      generalize record.fields = fields at faulty counted
      cases faulty with
      | fieldCount => rfl
      | duration equal => exact absurd equal counted
      | length equal => exact absurd equal counted
      | state => exact absurd rfl counted

/-! ## All records -/

/-- Records are refused exactly for the first one with a fault, behind frames that were read. -/
theorem frames_eq_error_iff {records : List Record} {error : AnalysisError} :
    frames format source elapsed (records.map .ok) = .error error ↔
      ∃ before record after read fault, records = before ++ record :: after ∧
        frames format source elapsed (before.map .ok) = .ok read ∧
        frame format (elapsed + totalDuration read) record = .error fault ∧
        error = .malformedRecord source record.line fault := by
  constructor
  · intro refused
    induction records generalizing elapsed with
    | nil => cases refused
    | cons first rest induction =>
        rw [List.map_cons, frames] at refused
        cases outcome : frame format elapsed first with
        | error fault =>
            rw [outcome] at refused
            cases refused
            exact ⟨[], first, rest, [], fault, rfl, rfl, outcome, rfl⟩
        | ok value =>
            rw [outcome, map_eq_error_iff] at refused
            rcases induction refused with
              ⟨before, record, after, read, fault, rfl, earlier, faulty, rfl⟩
            refine ⟨first :: before, record, after, value :: read, fault, rfl, ?_, ?_, rfl⟩
            · rw [List.map_cons, frames_cons_eq_ok_iff]
              exact ⟨value, read, outcome, earlier, rfl⟩
            · rwa [totalDuration_cons, ← Nat.add_assoc]
  · intro first
    rcases first with ⟨before, record, after, read, fault, rfl, earlier, faulty, rfl⟩
    rw [List.map_append, List.map_cons, frames_append earlier, frames, faulty]
    rfl

/-! ## Time in a word -/

/-- The sum of two words, unless it wraps round: then it is smaller than either of them. -/
def addChecked? (left right : UInt64) : Option UInt64 :=
  if left + right < left then none else some (left + right)

/-- The time until the end of a frame, unless it is no word or more than a recording may last. -/
def timeAfter? (elapsed : UInt64) (frame : Frame) : Option UInt64 :=
  (addChecked? elapsed frame.duration).filter fun total => total.toNat ≤ recordingLimit

theorem addChecked?_eq_some_iff {left right total : UInt64} :
    addChecked? left right = some total ↔ total.toNat = left.toNat + right.toNat := by
  have leftWord := left.toNat_lt
  have rightWord := right.toNat_lt
  have totalWord := total.toNat_lt
  rw [addChecked?]
  by_cases wraps : left + right < left
  · rw [if_pos wraps]
    rw [UInt64.lt_iff_toNat_lt, UInt64.toNat_add] at wraps
    simp only [reduceCtorEq, false_iff]
    omega
  · rw [if_neg wraps, Option.some.injEq, ← UInt64.toNat_inj]
    rw [UInt64.lt_iff_toNat_lt, UInt64.toNat_add] at wraps
    rw [UInt64.toNat_add]
    omega

theorem timeAfter?_eq_some_iff {elapsed total : UInt64} {frame : Frame} :
    timeAfter? elapsed frame = some total ↔
      total.toNat = elapsed.toNat + frame.duration.toNat ∧ total.toNat ≤ recordingLimit := by
  rw [timeAfter?, Option.filter_eq_some_iff, addChecked?_eq_some_iff, decide_eq_true_eq]

theorem timeAfter?_eq_none_iff {elapsed : UInt64} {frame : Frame} :
    timeAfter? elapsed frame = none ↔
      recordingLimit < elapsed.toNat + frame.duration.toNat := by
  have limit : recordingLimit < UInt64.size := by decide
  rw [Option.eq_none_iff_forall_ne_some]
  simp only [Ne, timeAfter?_eq_some_iff]
  constructor
  · intro none
    by_contra within
    have exact : (UInt64.ofNat (elapsed.toNat + frame.duration.toNat)).toNat =
        elapsed.toNat + frame.duration.toNat := UInt64.toNat_ofNat_of_lt' (by omega)
    exact none _ ⟨exact, by omega⟩
  · intro beyond total
    omega

/-- A time that is counted in a word from frame to frame is exact. -/
theorem map_toNat_foldlM_timeAfter? (elapsed : UInt64) (started : elapsed.toNat ≤ recordingLimit)
    (frames : List Frame) :
    (frames.foldlM timeAfter? elapsed).map UInt64.toNat =
      if elapsed.toNat + totalDuration frames ≤ recordingLimit then
        some (elapsed.toNat + totalDuration frames)
      else none := by
  induction frames generalizing elapsed with
  | nil => exact (if_pos started).symm
  | cons frame rest induction =>
      rw [List.foldlM_cons, totalDuration_cons, ← Nat.add_assoc]
      cases next : timeAfter? elapsed frame with
      | none =>
          have beyond := timeAfter?_eq_none_iff.mp next
          rw [if_neg (by omega)]
          rfl
      | some total =>
          rcases timeAfter?_eq_some_iff.mp next with ⟨exact, within⟩
          rw [← exact]
          exact induction total within

/-! ## Whole logs -/

/-- The first record with a fault: those before it spell frames that fit into a recording. -/
inductive FirstFault (format : LogFormat) (before : List Record) (record : Record)
    (fault : RecordFault) : Prop
  | intro {read : List Frame}
      (spelled : List.Forall₂ (fun record frame => Spells format record.fields frame) before read)
      (fits : totalDuration read ≤ recordingLimit)
      (faulty : Faulty (totalDuration read) format record.fields fault)

theorem frames_map_ok_eq_ok_iff {records : List Record} {result : List Frame} :
    frames format source 0 (records.map .ok) = .ok result ↔
      List.Forall₂ (fun record frame => Spells format record.fields frame) records result ∧
        totalDuration result ≤ recordingLimit := by
  rw [frames_eq_ok_iff (Nat.zero_le _), Nat.zero_add]
  simp only [denotes_iff_spells]
  constructor
  · intro read
    rcases read with ⟨decoded, same, spelled⟩
    rwa [List.map_injective_iff.mpr (fun _ _ => Except.ok.inj) same]
  · exact fun spelled => ⟨records, rfl, spelled⟩

theorem firstFault_iff {before : List Record} :
    FirstFault format before record fault ↔ ∃ read,
      frames format source 0 (before.map .ok) = .ok read ∧
        frame format (totalDuration read) record = .error fault := by
  simp only [frames_map_ok_eq_ok_iff, frame_eq_error_iff]
  constructor
  · intro first
    rcases first with ⟨spelled, fits, faulty⟩
    exact ⟨_, ⟨spelled, fits⟩, faulty⟩
  · intro first
    rcases first with ⟨read, ⟨spelled, fits⟩, faulty⟩
    exact .intro spelled fits faulty

/-- What stands behind the first record with a fault does not matter, even if it is no text. -/
theorem frames_of_firstFault {before : List Record} (first : FirstFault format before record fault)
    (source : Path) (later : List (Except TableFault Record)) :
    frames format source 0 ((before ++ [record]).map .ok ++ later) =
      .error (.malformedRecord source record.line fault) := by
  rcases firstFault_iff.mp first with ⟨read, earlier, refused⟩
  rw [List.map_append, List.append_assoc, frames_append earlier, Nat.zero_add, List.map_singleton,
    List.singleton_append, frames, refused]
  rfl

/-- A log whose records are all text is read as some frames exactly if its records spell them one
by one and no part from the start on exceeds a recording. Otherwise one of the records is the first
with a fault, and the error tells that fault and the line, whatever stands behind: any log that
starts with the same records is refused with the same error. A time that is counted in words is
exact within the limit, and beyond it there is none. -/
theorem acceptance_exact (format : LogFormat) (source : Path) (bytes : List UInt8)
    (records : List Record) (delivered : (Delimited.read bytes).tail = records.map .ok) :
    (∀ result, parse format source bytes = .ok result ↔
      List.Forall₂ (fun record frame => Spells format record.fields frame) records result ∧
        ∀ part, part <+: result → totalDuration part ≤ recordingLimit) ∧
    (∀ error, parse format source bytes = .error error ↔
      ∃ before record after fault, records = before ++ record :: after ∧
        FirstFault format before record fault ∧
        error = .malformedRecord source record.line fault) ∧
    (∀ before record fault, FirstFault format before record fault →
      ∀ other later, (Delimited.read other).tail = (before ++ [record]).map .ok ++ later →
        parse format source other = .error (.malformedRecord source record.line fault)) ∧
    ∀ frames : List Frame, (frames.foldlM timeAfter? 0).map UInt64.toNat =
      if totalDuration frames ≤ recordingLimit then some (totalDuration frames) else none := by
  refine ⟨?_, ?_, ?_, ?_⟩
  · intro result
    rw [parse, delivered, frames_map_ok_eq_ok_iff]
    have never : totalDuration result ≤ recordingLimit ↔
        ∀ part, part <+: result → totalDuration part ≤ recordingLimit :=
      ⟨fun fits part start => Nat.le_trans (totalDuration_le_of_sublist start.sublist) fits,
        fun fits => fits result (List.prefix_refl _)⟩
    rw [never]
  · intro error
    rw [parse, delivered, frames_eq_error_iff]
    simp only [Nat.zero_add]
    constructor
    · intro refused
      rcases refused with ⟨before, record, after, read, fault, rfl, earlier, faulty, rfl⟩
      exact ⟨before, record, after, fault, rfl, firstFault_iff.mpr ⟨read, earlier, faulty⟩, rfl⟩
    · intro refused
      rcases refused with ⟨before, record, after, fault, rfl, first, rfl⟩
      rcases firstFault_iff.mp first with ⟨read, earlier, faulty⟩
      exact ⟨before, record, after, read, fault, rfl, earlier, faulty, rfl⟩
  · intro before record fault first other later begins
    rw [parse, begins]
    exact frames_of_firstFault first source later
  · intro frames
    have exact := map_toNat_foldlM_timeAfter? 0 (Nat.zero_le _) frames
    simpa using exact

/-- The second record is too long, with a sum beyond all words, and its state is none. The third one
has no state at all. -/
private def overlongText : List UInt8 :=
  Text.Utf8.encode "ns,state\n5,-1\n18446744073709551615,x\n7\n".toList

theorem acceptance_exact_of_overlong :
    (Delimited.read overlongText).tail =
        [⟨["5".toList, "-1".toList], 2⟩, ⟨["18446744073709551615".toList, "x".toList], 3⟩,
          ⟨["7".toList], 4⟩].map .ok ∧
      parse .durationsAndStates ⟨"a.log"⟩ overlongText =
        .error (.malformedRecord ⟨"a.log"⟩ 3 (.tooLong 18446744073709551615 24)) := by
  have delivered : (Delimited.read overlongText).tail =
      [⟨["5".toList, "-1".toList], 2⟩, ⟨["18446744073709551615".toList, "x".toList], 3⟩,
        ⟨["7".toList], 4⟩].map .ok := by
    decide +kernel
  have spelled : Spells .durationsAndStates ["5".toList, "-1".toList] ⟨5, some (-1)⟩ :=
    denotes_iff_spells.mp (.durationAndState (by decide +kernel) (by decide +kernel))
  have natural : Natural 10 "18446744073709551615".toList
      (18446744073709551615 : UInt64).toNat :=
    (unsigned?_eq_some_iff (by decide)).mp (by decide +kernel)
  have first : FirstFault .durationsAndStates [⟨["5".toList, "-1".toList], 2⟩]
      ⟨["18446744073709551615".toList, "x".toList], 3⟩ (.tooLong 18446744073709551615 24) :=
    .intro (.cons spelled .nil) (by decide) (.length rfl natural (by decide))
  have exact := acceptance_exact .durationsAndStates ⟨"a.log"⟩ overlongText _ delivered
  exact ⟨delivered, (exact.2.1 _).mpr ⟨_, _, _, _, rfl, first, rfl⟩⟩

end FrameTiming.FrameLog

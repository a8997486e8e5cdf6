/-! # Frames

A recording is a list of frames in the order of their presentation. A frame knows how long it took
and, in some recordings, the state the program was in.
-/

namespace FrameTiming

/-- A number that marks a phase of the recorded program. -/
abbrev StateId := Int64

def defaultState : StateId := 0

structure Frame where
  /-- The time it took, in nanoseconds. -/
  duration : UInt64
  state? : Option StateId
deriving DecidableEq, Repr

def Frame.state (frame : Frame) : StateId :=
  frame.state?.getD defaultState

/-! ## Time -/

def secondLength : Nat := 1000000000

/-- The longest recording that is read: 24 hours, in nanoseconds. -/
def recordingLimit : Nat := 24 * 60 * 60 * secondLength

def hourLength : Nat := 60 * 60 * secondLength

/-- The sum of two times, or the largest time if it is larger than that. -/
def addTime (left right : UInt64) : UInt64 :=
  UInt64.ofNatClamp (left.toNat + right.toNat)

theorem toNat_addTime (left right : UInt64) :
    (addTime left right).toNat = min (left.toNat + right.toNat) (UInt64.size - 1) := by
  simp only [addTime, UInt64.ofNatClamp]
  split
  · simp only [UInt64.toNat_ofNatLT]
    simp only [UInt64.size] at *
    omega
  · simp only [UInt64.toNat_ofNatLT]
    simp only [UInt64.size] at *
    omega

def totalDuration (frames : List Frame) : Nat :=
  frames.foldr (fun frame total => frame.duration.toNat + total) 0

/-- The time at which each frame ends, when the first one starts at `start`. -/
def endTimes (start : UInt64) : List Frame → List UInt64
  | [] => []
  | frame :: rest =>
      let now := addTime start frame.duration
      now :: endTimes now rest

example : endTimes 0 [⟨5, none⟩, ⟨7, some 1⟩] = [5, 12] := by decide

/-! ## Log formats -/

inductive LogFormat where
  | durations
  | durationsAndStates
deriving DecidableEq, Repr

namespace LogFormat

def ofWithState (withState : Bool) : LogFormat :=
  if withState then .durationsAndStates else .durations

def header : LogFormat → List String
  | .durations => ["frame_time_ns"]
  | .durationsAndStates => ["frame_time_ns", "state"]

def fieldCount (format : LogFormat) : Nat :=
  format.header.length

end LogFormat

end FrameTiming

import Std.Data.TreeMap
import FrameTiming.Frame

/-! # Frames per second

A frame counts for the second in which it ends. A series has one bucket for every second from its
first to the one of the latest frame, seconds without a frame included.
-/

namespace FrameTiming

/-! ## Buckets -/

structure Bucket where
  second : Int
  frameCount : Nat
  /-- The state of the last frame, or the default state if there is none. -/
  state : StateId
deriving DecidableEq, Repr

/-- The end of a frame, in nanoseconds, and its state. -/
structure Timepoint where
  time : UInt64
  state : StateId
deriving DecidableEq, Repr

namespace Timepoint

def second (point : Timepoint) : Nat :=
  point.time.toNat / secondLength

def ofFrames (frames : List Frame) : List Timepoint :=
  List.zipWith (fun time frame => ⟨time, frame.state⟩) (endTimes 0 frames) frames

end Timepoint

namespace Bucket

def tally (points : List Timepoint) : Std.TreeMap Nat (Nat × StateId) :=
  points.foldl (fun counts point => counts.alter point.second fun
    | none => some (1, point.state)
    | some (count, _) => some (count + 1, point.state)) ∅

def seriesFrom (first : Nat) (points : List Timepoint) : List Bucket :=
  match (points.map Timepoint.second).max? with
  | none => []
  | some last =>
      let counts := tally points
      (List.range' first (last + 1 - first)).map fun second =>
        let (count, state) := counts.getD second (0, defaultState)
        ⟨second, count, state⟩

def ofFrames (frames : List Frame) : List Bucket :=
  seriesFrom 0 (Timepoint.ofFrames frames)

/-- The series of timepoints, from the second of the earliest one on. -/
def ofTimepoints (points : List Timepoint) : List Bucket :=
  match (points.map Timepoint.second).min? with
  | none => []
  | some first => seriesFrom first points

example : ofTimepoints [⟨3500000000, 7⟩, ⟨1000000000, 1⟩, ⟨3000000000, 8⟩]
    = [⟨1, 1, 1⟩, ⟨2, 0, 0⟩, ⟨3, 2, 8⟩] := by decide +kernel

end Bucket

/-! ## Segments -/

structure Segment where
  state : StateId
  buckets : List (Int × Nat)
deriving DecidableEq, Repr

namespace Segment

def seconds (segment : Segment) : List Int :=
  segment.buckets.map (·.1)

def counts (segment : Segment) : List Nat :=
  segment.buckets.map (·.2)

/-- The longest segments of one state that a series consists of. -/
def ofBuckets : List Bucket → List Segment
  | [] => []
  | bucket :: rest =>
      match ofBuckets rest with
      | [] => [⟨bucket.state, [(bucket.second, bucket.frameCount)]⟩]
      | segment :: segments =>
          if segment.state = bucket.state then
            ⟨bucket.state, (bucket.second, bucket.frameCount) :: segment.buckets⟩ :: segments
          else
            ⟨bucket.state, [(bucket.second, bucket.frameCount)]⟩ :: segment :: segments

def toBuckets (segment : Segment) : List Bucket :=
  segment.buckets.map fun (second, count) => ⟨second, count, segment.state⟩

example : ofBuckets [⟨0, 5, 1⟩, ⟨1, 6, 1⟩, ⟨2, 7, 0⟩]
    = [⟨1, [(0, 5), (1, 6)]⟩, ⟨0, [(2, 7)]⟩] := by decide

end Segment

end FrameTiming

import FrameTiming.Frame

/-! # Windows

The part of a recording that is analysed: the start is dropped until some time has passed, and what
remains ends with the frame that takes it past a cap. Both measure the time at which frames end,
against a threshold in nanoseconds.
-/

namespace FrameTiming.Window

def threshold (seconds : Float) : Float :=
  seconds * 1e9

def dropUntil (threshold : Float) (elapsed : UInt64) : List Frame → List Frame
  | [] => []
  | frame :: rest =>
      let now := addTime elapsed frame.duration
      if threshold ≤ now.toFloat then frame :: rest else dropUntil threshold now rest

def takeThrough (threshold : Float) (elapsed : UInt64) : List Frame → List Frame
  | [] => []
  | frame :: rest =>
      let now := addTime elapsed frame.duration
      if threshold < now.toFloat then [frame] else frame :: takeThrough threshold now rest

/-- Drops frames until the seconds have passed, if there are any to wait for. The frame that reaches
them is kept. -/
def dropFront (seconds? : Option Float) (frames : List Frame) : List Frame :=
  match seconds? with
  | none => frames
  | some seconds => if 0 < seconds then dropUntil (threshold seconds) 0 frames else frames

def capDuration (seconds? : Option Float) (frames : List Frame) : List Frame :=
  match seconds? with
  | none => frames
  | some seconds => takeThrough (threshold seconds) 0 frames

/-- Drops the front, then caps what remains, measured from its own start. -/
def apply (drop? cap? : Option Float) (frames : List Frame) : List Frame :=
  capDuration cap? (dropFront drop? frames)

example :
    let frames := [1, 2, 3, 4].map fun (second : UInt64) => ⟨1000000000, some second.toInt64⟩
    apply (some 2) (some 1) frames = (frames.drop 1).take 2 := by decide +kernel

end FrameTiming.Window

import FrameTiming.Frame
import FrameTiming.Number.Whole
import FrameTiming.Percentile

/-! # Time per state

How long a recording stayed in each state. Frames without a state count for the default state.
-/

namespace FrameTiming

/-! ## States of a recording -/

def insertState (state : StateId) : List StateId → List StateId
  | [] => [state]
  | first :: rest =>
      if state < first then state :: first :: rest
      else if state = first then first :: rest
      else first :: insertState state rest

def statesOf (frames : List Frame) : List StateId :=
  frames.foldr (fun frame states => insertState frame.state states) []

def timeIn (state : StateId) (frames : List Frame) : UInt64 :=
  (frames.filter fun frame => frame.state = state).foldl
    (fun elapsed frame => addTime elapsed frame.duration) 0

/-! ## Accounts -/

/-- The states of a recording in ascending order, with the milliseconds spent in each. -/
structure StateTime where
  entries : List (StateId × Float)
deriving DecidableEq

namespace StateTime

def ofFrames (frames : List Frame) : StateTime :=
  ⟨(statesOf frames).map fun state => (state, (timeIn state frames).toFloat / millisecondLength)⟩

/-- The milliseconds spent in a state, 0 if it does not occur. -/
def inState (account : StateTime) (state : StateId) : Float :=
  (account.entries.lookup state).getD 0

def states (account : StateTime) : List StateId :=
  account.entries.map (·.1)

/-- The milliseconds spent in all states, added up in their order. -/
def total (account : StateTime) : Float :=
  Number.sum (account.entries.map (·.2))

def isEmpty (account : StateTime) : Bool :=
  account.entries.isEmpty

end StateTime

example : (StateTime.ofFrames [⟨3000000, some 2⟩, ⟨1000000, none⟩, ⟨2000000, some 2⟩]).entries
    = [(0, 1), (2, 5)] := by decide +kernel

end FrameTiming

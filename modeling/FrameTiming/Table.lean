import FrameTiming.Delimited.Writer
import FrameTiming.Error
import FrameTiming.Number.Layout
import FrameTiming.Timeline

/-! # Tables

The series of an analysis as files of delimited records, for a renderer or a spreadsheet: the frames
per second of three runs side by side, and the two series of a timeline.
-/

namespace FrameTiming

namespace Table

/-! ## Files -/

def save {m : Type → Type} [Monad m] [Host m] (path : Path) (columns : List String)
    (rows : List (List String)) : ExceptT AnalysisError m Unit := do
  match ← (Host.writeFile path (Delimited.text (columns :: rows)) : m _) with
  | .error error => throw (.table path (.host error))
  | .ok () => return ()

end Table

/-! ## Comparison of three runs -/

/-- Frame count and state of three runs in one second; a run that has ended has none. -/
structure FpsRow where
  second : Nat
  low? : Option (Nat × StateId)
  median? : Option (Nat × StateId)
  high? : Option (Nat × StateId)
deriving DecidableEq, Repr

namespace FpsRow

def cell? (series : List Bucket) (second : Nat) : Option (Nat × StateId) :=
  series[second]?.map fun bucket => (bucket.frameCount, bucket.state)

/-- Three series that start at second 0, up to the end of the longest one. -/
def ofSeries (low median high : List Bucket) : List FpsRow :=
  (List.range (max (max low.length median.length) high.length)).map fun second =>
    ⟨second, cell? low second, cell? median second, cell? high second⟩

def columns : List String :=
  ["second", "low_fps", "low_state", "median_fps", "median_state", "high_fps", "high_state"]

def fields (row : FpsRow) : List String :=
  let pair : Option (Nat × StateId) → List String
    | some (count, state) => [toString count, toString state.toInt]
    | none => ["", ""]
  toString row.second :: pair row.low? ++ pair row.median? ++ pair row.high?

example : (ofSeries [⟨0, 60, 1⟩] [] [⟨0, 30, 0⟩, ⟨1, 31, -1⟩]).map fields
    = [["0", "60", "1", "", "", "30", "0"], ["1", "", "", "", "", "31", "-1"]] := by decide +kernel

def text (rows : List FpsRow) : String :=
  Delimited.text (columns :: rows.map fields)

end FpsRow

/-! ## Timelines -/

namespace Timeline

/-- Times have the fewest digits that read back; from `1e16` on and below `1e-5` they have an
exponent. -/
def layout : Number.Layout where
  tie := .toEven
  exponential exponent := 16 ≤ exponent || exponent ≤ -6
  wholeFraction := true
  plusSign := false

example : layout.text 4 = "4.0" ∧ layout.text 1e16 = "1e16" ∧ layout.text 1.5e-6 = "1.5e-6" := by
  decide +kernel

def fpsRows (timeline : Timeline) : List (List String) :=
  timeline.fps.map fun bucket =>
    [toString bucket.second, toString bucket.frameCount, toString bucket.state.toInt]

def pipelineRows (timeline : Timeline) : List (List String) :=
  timeline.pipelines.map fun creation =>
    [layout.text creation.seconds, layout.text creation.milliseconds, creation.kind.name]

/-- Writes both series into a directory and gives the paths of the files. -/
def save {m : Type → Type} [Monad m] [Host m] (timeline : Timeline) (directory : Path) :
    ExceptT AnalysisError m (List Path) := do
  match ← (Host.makeDirectories directory : m _) with
  | .error error => throw (.host directory error)
  | .ok () =>
      let fpsPath := directory.join ⟨timeline.dataset ++ "_timeline.csv"⟩
      Table.save fpsPath ["second", "fps", "state"] timeline.fpsRows
      let pipelinesPath := directory.join ⟨timeline.dataset ++ "_pipelines.csv"⟩
      Table.save pipelinesPath ["seconds", "creation_ms", "kind"] timeline.pipelineRows
      return [fpsPath, pipelinesPath]

end Timeline

end FrameTiming

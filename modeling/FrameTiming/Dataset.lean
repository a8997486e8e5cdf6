import FrameTiming.Run

/-! # Datasets

The runs of one program under one configuration. A log that cannot be read or analysed does not stop
the others: it is kept as a failure.
-/

namespace FrameTiming

structure Failure where
  path : Path
  error : AnalysisError
deriving DecidableEq

/-- Runs and failures in the order of the logs. -/
structure Dataset where
  name : String
  runs : List Run
  failures : List Failure
deriving DecidableEq

namespace Dataset

def ofOutcomes (name : String) (outcomes : List (Path × Except AnalysisError Run)) : Dataset where
  name := name
  runs := outcomes.filterMap fun (_, outcome) => outcome.toOption
  failures := outcomes.filterMap fun
    | (path, .error error) => some ⟨path, error⟩
    | (_, .ok _) => none

def load {m : Type → Type} [Monad m] [Host m] (config : Config) (name : String)
    (paths : List Path) : m Dataset := do
  let outcomes ← paths.mapM fun path => do
    let outcome ← (Run.read config path).run
    return (path, outcome)
  return ofOutcomes name outcomes

end Dataset

end FrameTiming

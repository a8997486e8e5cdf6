import FrameTiming.CommandLine
import FrameTiming.Program.Analyze
import FrameTiming.Program.Timeline

/-! # The program

From arguments to an outcome: the command that they give is run on a host.
-/

namespace FrameTiming.Program

inductive Outcome where
  | finished
  | unusable (error : CommandLine.UsageError)
  | failed (failure : ProgramFailure)
deriving DecidableEq

def Outcome.status : Outcome → Nat
  | .finished | .unusable .help | .unusable .version => 0
  | .failed _ => 1
  | .unusable _ => 2

/-- Runs the program. `scratch` is a directory for logs that nobody asked to keep. -/
def run {m : Type → Type} [Monad m] [Host m] (scratch : Path) (arguments : List String) :
    m Outcome := do
  match CommandLine.parse arguments with
  | .error error => return .unusable error
  | .ok command =>
      let result ← match command with
        | .analyze options => (analyze scratch options).run
        | .timeline options => (timeline options).run
      match result with
      | .error failure => return .failed failure
      | .ok () => return .finished

end FrameTiming.Program

import FrameTiming.Error

/-! # Renderers

A renderer is a program that turns tables and logs into a picture. It gets the files as arguments
and the name of the picture apart from them.
-/

namespace FrameTiming.Renderer

def render {m : Type → Type} [Monad m] [Host m] (program : Path) (inputs : List Path)
    (output : Path) : ExceptT AnalysisError m Unit := do
  match ← (Host.runProgram program inputs output : m _) with
  | .error error => throw (.render (.notStarted program error))
  | .ok (.code 0) => return ()
  | .ok status => throw (.render (.failed program status output))

end FrameTiming.Renderer

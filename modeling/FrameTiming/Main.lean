import FrameTiming.Program

/-! # The executable

The program on a real system.
-/

namespace FrameTiming

def HostError.ofIOError : IO.Error → HostError
  | .noFileOrDirectory .. => .notFound
  | .permissionDenied .. => .permissionDenied
  | .alreadyExists .. => .alreadyExists
  | .inappropriateType _ code _ => if code = 20 then .notDirectory else .isDirectory
  | error => .other (toString error)

def attempt {Result : Type} (operation : IO Result) : IO (Except HostError Result) := do
  match ← operation.toBaseIO with
  | .ok result => return .ok result
  | .error error => return .error (HostError.ofIOError error)

/-- Programs cannot be started from here. -/
instance : Host IO where
  openFile path := do
    match ← attempt (IO.FS.readBinFile path.text) with
    | .ok bytes => return .ok (.bytes bytes.toList)
    | .error .isDirectory => return .ok .directory
    | .error error => return .error error
  canonicalPath path := attempt (return ⟨(← IO.FS.realPath path.text).toString⟩)
  makeDirectories path := attempt (IO.FS.createDirAll path.text)
  writeFile path text := attempt (IO.FS.writeFile path.text text)
  runProgram _ _ _ := return .error (.other "this host starts no programs")
  print text := IO.print text

/-- A directory of this invocation for logs that nobody asked to keep. -/
def scratchDirectory : IO Path := do
  let base := (← IO.getEnv "TMPDIR").getD "/tmp"
  let now ← IO.monoNanosNow
  return Path.join ⟨base⟩ ⟨"frame-timing-" ++ toString now⟩

def conclude : Program.Outcome → IO Unit
  | .finished => return ()
  | .unusable .help => IO.println "usage: (analyze | timeline) --dataset NAME LOG... [OPTION...]"
  | .unusable .version => IO.println Document.version
  | .unusable error => IO.eprintln ("error: " ++ error.message)
  | .failed failure => IO.eprint failure.report

end FrameTiming

open FrameTiming in
def main (arguments : List String) : IO UInt32 := do
  let outcome ← Program.run (← scratchDirectory) arguments
  conclude outcome
  return UInt32.ofNat outcome.status

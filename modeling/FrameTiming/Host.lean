import FrameTiming.Host.Signal
import FrameTiming.Path

/-! # What the surroundings provide

The program reads logs, writes tables, starts a renderer and prints. `Host` names these services for
any monad, so that one text of the program runs on a real system and on a value
(`FrameTiming.Host.Simulation`).
-/

namespace FrameTiming

/-! ## Failures -/

inductive HostError where
  | notFound
  | permissionDenied
  | alreadyExists
  | notDirectory
  | isDirectory
  | nameTooLong
  | notExecutable
  /-- Programs that are started by programs lead nowhere. -/
  | tooManyLevels
  | nulInPath
  | invalidText
  | other (message : String)
deriving DecidableEq, Repr

namespace HostError

def message : HostError → String
  | .notFound => "No such file or directory (os error 2)"
  | .permissionDenied => "Permission denied (os error 13)"
  | .alreadyExists => "File exists (os error 17)"
  | .notDirectory => "Not a directory (os error 20)"
  | .isDirectory => "Is a directory (os error 21)"
  | .nameTooLong => "File name too long (os error 36)"
  | .notExecutable => "Exec format error (os error 8)"
  | .tooManyLevels => "Too many levels of symbolic links (os error 40)"
  | .nulInPath => "file name contained an unexpected NUL byte"
  | .invalidText => "stream did not contain valid UTF-8"
  | .other message => message

end HostError

/-! ## Programs -/

inductive ExitStatus where
  | code (status : Nat)
  | signal (signal : Host.Signal)
deriving DecidableEq, Repr

def ExitStatus.text : ExitStatus → String
  | .code status => s!"exit status: {status}"
  | .signal received => "signal: " ++ received.text

/-! ## Services -/

/-- What opening a path for reading gives. A directory opens, but reading from it fails. -/
inductive Opened where
  | bytes (content : List UInt8)
  | directory
deriving DecidableEq, Repr

def Opened.read : Opened → Except HostError (List UInt8)
  | .bytes content => .ok content
  | .directory => .error .isDirectory

class Host (m : Type → Type) where
  openFile : Path → m (Except HostError Opened)
  /-- The absolute path of something that exists, free of dots and links. -/
  canonicalPath : Path → m (Except HostError Path)
  makeDirectories : Path → m (Except HostError Unit)
  writeFile : Path → String → m (Except HostError Unit)
  /-- Starts a program with arguments and the name of its output file, waits for it, and tells how
  it ended. -/
  runProgram : (program : Path) → (arguments : List Path) → (output : Path) →
    m (Except HostError ExitStatus)
  print : String → m Unit

end FrameTiming

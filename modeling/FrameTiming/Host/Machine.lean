import FrameTiming.Host.FileTree
import FrameTiming.Text.Utf8

/-! # A machine as a value

A file tree, a working directory and what has been printed so far: all that a program here can change.
-/

namespace FrameTiming.Host

open FrameTiming.Text

/-- The surroundings of a program. -/
structure Machine where
  files : FileTree
  working : Location
  printed : String

namespace Machine

def start (files : FileTree) (working : Location) : Machine :=
  ⟨files, working, ""⟩

def openFile (machine : Machine) (path : Path) : Except HostError Opened :=
  machine.files.openFile machine.working path

/-- Changes the files of a machine by an operation that knows the working directory. -/
def change (machine : Machine)
    (operation : FileTree → Location → Except HostError FileTree) : Except HostError Machine :=
  (operation machine.files machine.working).map fun files => { machine with files }

def writeFile (machine : Machine) (path : Path) (text : String) : Except HostError Machine :=
  machine.change fun files working => files.writeFile working path (Utf8.encode text.toList)

def appendFile (machine : Machine) (path : Path) (text : String) : Except HostError Machine :=
  machine.change fun files working => files.appendFile working path (Utf8.encode text.toList)

def print (machine : Machine) (text : String) : Machine :=
  { machine with printed := machine.printed ++ text }

end Machine

end FrameTiming.Host

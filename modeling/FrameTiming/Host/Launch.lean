import FrameTiming.Host.Script

/-! # Starting programs

The programs of a machine are executable files. The shell is known by its location; every other
program is a script, whose first line names the program that it is given to.
-/

namespace FrameTiming.Host

open FrameTiming.Text

/-! ## Interpreters -/

/-- How much of a file is searched for the name of its interpreter. -/
def headLength : Nat := 256

private def isGap (byte : UInt8) : Bool :=
  byte = 0x20 || byte = 0x09

private def endsName (byte : UInt8) : Bool :=
  isGap byte || byte = 0

/-- The interpreter that a file names behind `#!`, and at most one argument for it. A line that is
longer than the head of a file still names its interpreter if the name itself ends there. The name
is empty where a character that ends it, or the end of the file, comes first. -/
def interpreter? (content : List UInt8) : Option (String × Option String) :=
  match content.take headLength with
  | 0x23 :: 0x21 :: head =>
      let line := (head.takeWhile (· ≠ 0x0a)).dropWhile isGap
      let name := line.takeWhile (!endsName ·)
      let behind := line.drop name.length
      let argument := (behind.dropWhile isGap).takeWhile (· ≠ 0)
      let argument := (argument.reverse.dropWhile isGap).reverse
      let ended := 0x0a ∈ head || content.length < headLength || !behind.isEmpty
      if !ended || (line.isEmpty && 0x0a ∈ head) then none
      else do
        let name ← Utf8.decode? name
        if behind.head? = some 0 ∨ argument.isEmpty then some (name, none)
        else some (name, some (← Utf8.decode? argument))
  | _ => none

private def interpreterOf (text : String) : Option (String × Option String) :=
  interpreter? (Utf8.encode text.toList)

example : (interpreterOf "#! /bin/sh  -e u \nx", interpreterOf "#!/bin/sh\r\n", interpreterOf "#!\n",
    interpreterOf "echo") = (some ("/bin/sh", some "-e u"), some ("/bin/sh\r", none), none, none) := by
  decide +kernel

/-! ## Programs -/

def searchPath : List Path :=
  [⟨"/usr/local/bin"⟩, ⟨"/usr/bin"⟩, ⟨"/bin"⟩]

def shells : List Location :=
  ["sh", "dash", "bash"].flatMap fun name => [["bin", name], ["usr", "bin", name]]

def searcher : List Location :=
  [["bin", "env"], ["usr", "bin", "env"]]

namespace Machine

def search (machine : Machine) (name : String) : Except HostError Path :=
  if FileTree.nameLimit < name.utf8ByteSize then .error .nameTooLong
  else
    let candidates := searchPath.map (·.join ⟨name⟩)
    match candidates.find? fun path => (machine.openFile path) matches .ok (.bytes _) with
    | some path => .ok path
    | none => .error .notFound

/-- Runs the shell on its arguments: options, and a script with arguments of its own. Without a
script there is nothing to do; one that cannot be read ends the shell with status 2. -/
def runShell (machine : Machine) (arguments : List String) (output : String) : ExitStatus × Machine :=
  let isOption (argument : String) := argument.toList.head? = some '-'
  let strict := (arguments.takeWhile isOption).any ('e' ∈ ·.toList)
  match arguments.dropWhile isOption with
  | [] => (.code 0, machine)
  | script :: arguments =>
      match (machine.openFile ⟨script⟩).bind Opened.read with
      | .ok content =>
          let text := (Utf8.decode content).toOption.getD []
          Script.run text strict script arguments output machine
      | .error _ => (.code 2, machine)

/-- Starts the program at a path. Scripts may be given to scripts only a few times. -/
def launch (machine : Machine) (output : String) :
    (levels : Nat) → (program : Path) → (arguments : List String) →
      Except HostError (ExitStatus × Machine)
  | 0, _, _ => .error .tooManyLevels
  | levels + 1, program, arguments => do
      match ← machine.files.find machine.working program with
      | (_, .directory) | (_, .file _ false) => .error .permissionDenied
      | (location, .file content true) =>
          if location ∈ shells then
            return machine.runShell arguments output
          else if location ∈ searcher then
            match arguments with
            | [] => return (.code 0, machine)
            | name :: arguments =>
                let path := if '/' ∈ name.toList then .ok ⟨name⟩ else machine.search name
                match path.bind fun path => machine.launch output levels path arguments with
                | .ok result => return result
                | .error .notFound => return (.code 127, machine)
                | .error _ => return (.code 126, machine)
          else
            match interpreter? content with
            | none => .error .notExecutable
            | some ("", _) => .error .permissionDenied
            | some (interpreter, argument?) =>
                machine.launch output levels ⟨interpreter⟩
                  (argument?.toList ++ program.text :: arguments)

def runProgram (machine : Machine) (program : Path) (arguments : List Path) (output : Path) :
    Except HostError (ExitStatus × Machine) := do
  let path ← if '/' ∈ program.text.toList then .ok program else machine.search program.text
  machine.launch output.text 6 path (arguments.map (·.text))

end Machine

end FrameTiming.Host

import FrameTiming.Host.Machine
import FrameTiming.Host.Script.Printed
import FrameTiming.Host.Script.Word

/-! # Renderer scripts

The shell commands that a renderer on a machine may consist of: simple commands, one behind the other
or on the outcome of the one before, with their output to the machine or to files. A script knows
its arguments and the name of its output file.
-/

namespace FrameTiming.Host.Script

open FrameTiming.Text

structure Shell where
  machine : Machine
  name : String
  arguments : List String
  output : String
  status : Nat
  /-- Whether the first command that fails ends the script. -/
  strict : Bool
  ended? : Option ExitStatus

namespace Shell

def ownNumber : String := "4242"

/-! ## Expansion -/

def value? (shell : Shell) : (parameter : String) → Option String
  | "#" => some (toString shell.arguments.length)
  | "?" => some (toString shell.status)
  | "$" => some ownNumber
  | "OUTFILE" => some shell.output
  | "PWD" => some (FileTree.absolutePath shell.machine.working).text
  | parameter => match Number.natural? 10 parameter.toList with
      | some 0 => some shell.name
      | some (position + 1) => shell.arguments[position]?
      | none => none

private def wordsOf (text : String) : List String :=
  let spaced := text.toList.map fun char => if char = '\t' ∨ char = '\n' then ' ' else char
  ((splitAll ' ' spaced).filter (· ≠ [])).map String.ofList

def expandPiece (shell : Shell) : Piece → List String
  | .text characters => [String.ofList characters]
  | .parameter "@" true => shell.arguments
  | .parameter "*" true => [" ".intercalate shell.arguments]
  | .parameter "@" false | .parameter "*" false => shell.arguments.flatMap wordsOf
  | .parameter name true => [(shell.value? name).getD ""]
  | .parameter name false => wordsOf ((shell.value? name).getD "")

/-- Two expansions next to each other in one word. -/
def adjoin (left right : List String) : List String :=
  match left.getLast?, right with
  | some last, first :: rest => left.dropLast ++ (last ++ first) :: rest
  | _, _ => left ++ right

/-- The words that a word stands for. Quotes around the arguments make no word where there are none. -/
def expand (shell : Shell) (pieces : List Piece) : List String :=
  let absent := shell.arguments.isEmpty && pieces.contains (.parameter "@" true)
  let pieces := if absent then pieces.filter (· ≠ .text []) else pieces
  (pieces.map shell.expandPiece).foldl adjoin []

/-! ## Streams -/

inductive Sink where
  | machine
  | nowhere
  | file (path : Path)

def bottomless : String := "/dev/null"

/-- A command with its redirections carried out: its words, where its output goes, and the text that
it reads. -/
structure Prepared where
  words : List String := []
  sink : Sink := .machine
  input : List UInt8 := []

/-- Opens the target of a redirection. Messages about failures are not kept, so the stream for them
matters only for the files that it creates. -/
def redirect (shell : Shell) (prepared : Prepared) (stream : Nat) (direction : Direction)
    (target : String) : Except HostError (Prepared × Shell) := do
  let opened (machine : Machine) : Prepared × Shell :=
    let sink := if target = bottomless then .nowhere else .file ⟨target⟩
    (if stream = 1 then { prepared with sink } else prepared, { shell with machine })
  match direction with
  | .stream =>
      return (if stream = 1 ∧ target ≠ "1" then { prepared with sink := .nowhere } else prepared, shell)
  | .input => return ({ prepared with input := ← (← shell.machine.openFile ⟨target⟩).read }, shell)
  | .replace =>
      if target = bottomless then return opened shell.machine
      else return opened (← shell.machine.writeFile ⟨target⟩ "")
  | .append =>
      if target = bottomless then return opened shell.machine
      else return opened (← shell.machine.appendFile ⟨target⟩ "")

def prepare (shell : Shell) (prepared : Prepared) :
    List Token → Except HostError (Prepared × Shell)
  | .redirect stream direction :: .word pieces :: rest => do
      let target := " ".intercalate (shell.expand pieces)
      let (prepared, shell) ← shell.redirect prepared stream direction target
      shell.prepare prepared rest
  | .word pieces :: rest =>
      shell.prepare { prepared with words := prepared.words ++ shell.expand pieces } rest
  | .redirect .. :: rest | .joint _ :: rest => shell.prepare prepared rest
  | [] => .ok (prepared, shell)

def emit (shell : Shell) (sink : Sink) (text : List Char) : Shell :=
  match sink with
  | .nowhere => shell
  | .machine => { shell with machine := shell.machine.print (String.ofList text) }
  | .file path =>
      let machine := (shell.machine.appendFile path (String.ofList text)).toOption
      { shell with machine := machine.getD shell.machine }

/-! ## Commands -/

def done (shell : Shell) (status : Nat) : Shell :=
  { shell with status }

def exit (shell : Shell) (status : Nat) : Shell :=
  { shell with status, ended? := some (.code status) }

def numberLimit : Nat := 2147483647

private def argument? (text : String) : Option Nat :=
  (Number.natural? 10 text.toList).filter (· ≤ numberLimit)

private def signal? (text : String) : Option Signal :=
  match argument? text with
  | some number => Signal.ofNumber? number
  | none => Signal.ofName? text

/-- Sends a signal. The only program to reach is the script itself. -/
def send (shell : Shell) (signal : Signal) (targets : List String) : Shell :=
  if ownNumber ∉ targets then shell.done 1
  else if signal.isHarmless then shell.done 0
  else { shell with ended? := some (.signal signal) }

/-- Sends the signal that the arguments ask for, or the one that terminates. -/
def kill (shell : Shell) : List String → Shell
  | [] => shell.done 2
  | "-s" :: name :: targets => match signal? name, targets with
      | some signal, _ :: _ => shell.send signal targets
      | _, _ => shell.done 2
  | first :: targets => match first.toList, targets with
      | '-' :: name, _ :: _ => match signal? (String.ofList name) with
          | some signal => shell.send signal targets
          | none => shell.done 2
      | '-' :: _, [] => shell.done 2
      | _, _ => shell.send .terminate (first :: targets)

/-- Prints files one behind the other, and the input if none is named. A file that cannot be read is
left out. -/
def concatenate (shell : Shell) (sink : Sink) (input : List UInt8) (paths : List String) : Shell :=
  let contents := if paths.isEmpty then [some input] else paths.map fun path =>
    ((shell.machine.openFile ⟨path⟩).bind Opened.read).toOption
  let shell := contents.foldl (fun shell content? => match content?.bind Utf8.decode? with
    | some text => shell.emit sink text.toList
    | none => shell) shell
  shell.done (if contents.all Option.isSome then 0 else 1)

def holds? (shell : Shell) : List String → Option Bool
  | [] => some false
  | [text] => some (text ≠ "")
  | ["!", text] => some (text = "")
  | ["-n", text] => some (text ≠ "")
  | ["-z", text] => some (text = "")
  | ["-e", path] => some ((shell.machine.openFile ⟨path⟩) matches .ok _)
  | ["-f", path] => some ((shell.machine.openFile ⟨path⟩) matches .ok (.bytes _))
  | ["-d", path] => some ((shell.machine.openFile ⟨path⟩) matches .ok .directory)
  | [left, "=", right] => some (left = right)
  | [left, "!=", right] => some (left ≠ right)
  | [left, relation, right] => do
      let left ← argument? left
      let right ← argument? right
      match relation with
      | "-eq" => some (left = right)
      | "-ne" => some (left ≠ right)
      | "-lt" => some (left < right)
      | "-le" => some (left ≤ right)
      | "-gt" => some (right < left)
      | "-ge" => some (right ≤ left)
      | _ => none
  | _ => none

def test (shell : Shell) (arguments : List String) : Shell :=
  match shell.holds? arguments with
  | some true => shell.done 0
  | some false => shell.done 1
  | none => shell.done 2

/-- Runs a command whose redirections are open. An unknown command has status 127. -/
def command (shell : Shell) (prepared : Prepared) : List String → Shell
  | [] => shell.done 0
  | name :: arguments => match name with
      | ":" | "true" | "sleep" => shell.done 0
      | "false" => shell.done 1
      | "echo" => (shell.emit prepared.sink (echo arguments)).done 0
      | "printf" => match arguments with
          | [] => shell.done 2
          | format :: values =>
              let format := (unescape format.toList).1
              let text := formatted format (values.length + 1) values
              (shell.emit prepared.sink text).done 0
      | "cat" => shell.concatenate prepared.sink prepared.input arguments
      | "pwd" => (shell.emit prepared.sink (echo [(shell.value? "PWD").getD ""])).done 0
      | "test" => shell.test arguments
      | "[" => if arguments.getLast? = some "]" then shell.test arguments.dropLast else shell.done 2
      | "kill" => shell.kill arguments
      | "exec" => match arguments with
          | [] => shell.done 0
          | arguments =>
              let shell := shell.command prepared arguments
              { shell with ended? := shell.ended? <|> some (.code shell.status) }
      | "exit" => match arguments.head?.map argument? with
          | none => shell.exit shell.status
          | some none => shell.exit 2
          | some (some status) => shell.exit (status % 256)
      | "shift" => match (arguments.head?.map argument?).getD (some 1) with
          | some count =>
              if count ≤ shell.arguments.length then
                { shell with arguments := shell.arguments.drop count }.done 0
              else
                shell.exit 2
          | none => shell.exit 2
      | "set" => { shell with strict := shell.strict || arguments.any ('e' ∈ ·.toList) }.done 0
      | _ => shell.done 127

/-! ## Running -/

def admits (shell : Shell) : Joint → Bool
  | .always => true
  | .ifSucceeded => shell.status = 0
  | .ifFailed => shell.status ≠ 0

/-- The commands that a refused redirection does not leave running on. -/
def special : List String :=
  [":", "exec", "exit", "set", "shift"]

/-- Runs one command. A redirection that cannot be opened refuses it with status 2. -/
def step (shell : Shell) (tokens : List Token) : Shell :=
  match shell.prepare {} tokens with
  | .ok (prepared, shell) => shell.command prepared prepared.words
  | .error _ =>
      let words := tokens.flatMap fun token => match token with
        | .word pieces => shell.expand pieces
        | _ => []
      if words.head?.any (· ∈ special) then shell.exit 2 else shell.done 2

def runCommands (shell : Shell) : List (Joint × List Token) → Shell
  | [] => shell
  | (joint, tokens) :: rest =>
      if tokens.isEmpty || !shell.admits joint then shell.runCommands rest
      else
        let after := shell.step tokens
        let last := rest.head?.all fun (joint, _) => joint = .always
        if after.ended?.isSome then after
        else if after.strict && after.status != 0 && last then after.exit after.status
        else after.runCommands rest

end Shell

def run (script : List Char) (strict : Bool) (name : String) (arguments : List String)
    (output : String) (machine : Machine) : ExitStatus × Machine :=
  let shell := Shell.runCommands ⟨machine, name, arguments, output, 0, strict, none⟩
    (commands (tokens script))
  (shell.ended?.getD (.code shell.status), shell.machine)

private def trace (script : String) (arguments : List String) : ExitStatus × String :=
  let (status, machine) :=
    run script.toList false "s" arguments "out.png" (Machine.start FileTree.empty [])
  (status, machine.printed)

example : trace "#!/bin/sh\necho \"$@\" > \"$OUTFILE\"\ncat < out.png" ["a  b", "c"]
    = (.code 0, "a  b c\n") := by decide +kernel
example : trace "echo \"render $# $OUTFILE\"\nexit 3\necho no" ["a"]
    = (.code 3, "render 1 out.png\n") := by decide +kernel
example : trace "false || kill -9 $$; echo no" [] = (.signal .kill, "") := by decide +kernel

end FrameTiming.Host.Script

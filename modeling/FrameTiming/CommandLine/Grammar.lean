import FrameTiming.Number.Literal
import FrameTiming.Text.Blank

/-! # Option grammars

Which options a command has, and how arguments are read by them. An option is written `--name` or
with a letter, `-n`; letters may share a dash. Its values follow as arguments or, for a single one,
after `=` or right behind the letter. An occurrence is complete where the next option begins; only
then its values are looked at. An argument that is neither an option nor a value is refused whatever
is wrong with the option before it.
-/

namespace FrameTiming.CommandLine

open Text (splitOnce?)

/-! ## Refusals -/

inductive UsageError where
  | help
  | version
  | missingCommand
  | unknownCommand (name : String)
  | unknownArgument (text : String)
  | missingValue (option : String)
  | invalidValue (option value : String)
  | malformedNumber (option value : String)
  | repeatedOption (option : String)
  | tooFewValues (option : String)
  | wrongValueCount (option : String)
  /-- A value was attached to an option that has none. -/
  | unexpectedValue (option : String)
deriving DecidableEq, Repr

namespace UsageError

def message : UsageError → String
  | .help => "help"
  | .version => "version"
  | .missingCommand => "a command is required"
  | .unknownCommand name => s!"unknown command '{name}'"
  | .unknownArgument text => s!"unexpected argument '{text}'"
  | .missingValue option => s!"--{option} needs a value"
  | .invalidValue option value => s!"invalid value '{value}' for --{option}"
  | .malformedNumber option value => s!"'{value}' is no number for --{option}"
  | .repeatedOption option => s!"--{option} is given twice"
  | .tooFewValues option => s!"--{option} needs more values"
  | .wrongValueCount option => s!"--{option} has the wrong number of values"
  | .unexpectedValue option => s!"--{option} takes no value"

end UsageError

/-! ## Options -/

inductive Arity where
  | flag
  | exactly (count : Nat)
  | atLeast (count : Nat)
deriving DecidableEq, Repr

def Arity.takesMore (arity : Arity) (given : Nat) : Bool :=
  match arity with
  | .flag => false
  | .exactly count => given < count
  | .atLeast _ => true

inductive ValueKind where
  | text
  /-- Text that is not empty. -/
  | path
  | number
  | word
  | oneOf (choices : List String)
deriving DecidableEq, Repr

def ValueKind.fault? (kind : ValueKind) (option value : String) : Option UsageError :=
  match kind with
  | .text => none
  | .path => if value.isEmpty then some (.missingValue option) else none
  | .number =>
      if (Number.float? value.toList).isSome then none else some (.malformedNumber option value)
  | .word =>
      if (Number.signed? value.toList).isSome then none else some (.malformedNumber option value)
  | .oneOf choices => if value ∈ choices then none else some (.invalidValue option value)

structure OptionSpec where
  name : String
  letter? : Option Char := none
  arity : Arity
  kind : ValueKind
  repeatable : Bool := false
  /-- An argument such as `-1` is a value of it. -/
  negativeNumbers : Bool := false
deriving Repr

structure Occurrence (Key : Type) where
  key : Key
  values : List String
deriving DecidableEq, Repr

/-- The options of a command by their keys. Every command has `--help` and `-h` besides. -/
structure Grammar (Key : Type) where
  options : List (Key × OptionSpec)

variable {Key : Type}

namespace Grammar

def named? (grammar : Grammar Key) (name : String) : Option (Key × OptionSpec) :=
  grammar.options.find? fun (_, spec) => spec.name = name

def lettered? (grammar : Grammar Key) (letter : Char) : Option (Key × OptionSpec) :=
  grammar.options.find? fun (_, spec) => spec.letter? = some letter

end Grammar

/-! ## Progress -/

/-- What has been read: complete occurrences, and one that may get further values. -/
structure Progress (Key : Type) where
  complete : List (Occurrence Key)
  pending? : Option (OptionSpec × Occurrence Key)

namespace Progress

def start : Progress Key :=
  ⟨[], none⟩

/-- What is wrong with an occurrence behind complete ones: first the number of its values, then
that it is there again, then the values themselves. -/
def fault? [DecidableEq Key] (complete : List (Occurrence Key)) (spec : OptionSpec)
    (occurrence : Occurrence Key) : Option UsageError :=
  let given := occurrence.values.length
  let countFault? : Option UsageError :=
    if spec.arity ≠ .flag ∧ given = 0 then some (.missingValue spec.name)
    else match spec.arity with
      | .flag => none
      | .exactly count => if given = count then none else some (.wrongValueCount spec.name)
      | .atLeast count => if count ≤ given then none else some (.tooFewValues spec.name)
  let again := !spec.repeatable && complete.any (·.key = occurrence.key)
  countFault?
    <|> (if again then some (.repeatedOption spec.name) else none)
    <|> occurrence.values.findSome? (spec.kind.fault? spec.name)

def add [DecidableEq Key] (progress : Progress Key) (spec : OptionSpec)
    (occurrence : Occurrence Key) : Except UsageError (Progress Key) :=
  match fault? progress.complete spec occurrence with
  | some error => .error error
  | none => .ok { progress with complete := progress.complete ++ [occurrence] }

def settle [DecidableEq Key] (progress : Progress Key) : Except UsageError (Progress Key) :=
  match progress.pending? with
  | none => .ok progress
  | some (spec, occurrence) => add ⟨progress.complete, none⟩ spec occurrence

/-- Begins an occurrence. A flag and an attached value complete it at once. -/
def begin [DecidableEq Key] (progress : Progress Key) (key : Key) (spec : OptionSpec)
    (attached? : Option String) : Except UsageError (Progress Key) := do
  let progress ← progress.settle
  if spec.arity = .flag ∨ attached?.isSome then
    progress.add spec ⟨key, attached?.toList⟩
  else
    return { progress with pending? := some (spec, ⟨key, []⟩) }

def expecting? (progress : Progress Key) : Option OptionSpec :=
  progress.pending?.bind fun (spec, occurrence) =>
    if spec.arity.takesMore occurrence.values.length then some spec else none

def push (progress : Progress Key) (value : String) : Progress Key :=
  { progress with
    pending? := progress.pending?.map fun (spec, occurrence) =>
      (spec, { occurrence with values := occurrence.values ++ [value] }) }

end Progress

/-! ## Arguments -/

inductive Argument where
  | separator
  | option (name : String) (attached? : Option String)
  | letters (first : Char) (rest : List Char)
  | plain
deriving DecidableEq, Repr

def Argument.ofText : List Char → Argument
  | ['-', '-'] => .separator
  | '-' :: '-' :: text =>
      match splitOnce? '=' text with
      | some (name, value) => .option (String.ofList name) (some (String.ofList value))
      | none => .option (String.ofList text) none
  | '-' :: first :: rest => .letters first rest
  | _ => .plain

example : Argument.ofText "--a=b=c".toList = .option "a" (some "b=c") := by decide +kernel
example : Argument.ofText "-".toList = .plain := by decide

/-- Digits, with at most one point behind the first of them and at most one exponent. -/
def isNumeral (text : List Char) : Bool :=
  let isWhole (digits : List Char) := !digits.isEmpty && digits.all Char.isDigit
  let (mantissa, exponent) := (splitOnce? 'e' text).getD (text, ['0'])
  let (whole, fraction) := (splitOnce? '.' mantissa).getD (mantissa, [])
  isWhole whole && fraction.all Char.isDigit && isWhole exponent

example : ["1", "1.", "1.5e3"].all (isNumeral ·.toList) = true := by decide +kernel
example : [".5", "e3", "1e", "1e5.0", "x"].any (isNumeral ·.toList) = false := by decide +kernel

/-! ## Reading -/

namespace Grammar

def readName [DecidableEq Key] (grammar : Grammar Key) (progress : Progress Key) (name : String)
    (attached? : Option String) : Except UsageError (Progress Key) :=
  match grammar.named? name with
  | some (key, spec) =>
      if spec.arity = .flag ∧ attached?.isSome then .error (.unexpectedValue name)
      else progress.begin key spec attached?
  | none =>
      if name ≠ "help" then .error (.unknownArgument ("--" ++ name))
      else if attached?.isSome then .error (.unexpectedValue name)
      else progress.settle.bind fun _ => .error .help

/-- Reads options given by letters behind one dash. What follows the letter of an option with
values is its value. -/
def readLetters [DecidableEq Key] (grammar : Grammar Key) (progress : Progress Key) :
    List Char → Except UsageError (Progress Key)
  | [] => .ok progress
  | letter :: rest =>
      match grammar.lettered? letter with
      | some (key, spec) =>
          if spec.arity = .flag then do
            let progress ← progress.begin key spec none
            grammar.readLetters progress rest
          else
            let attached? := match rest with
              | [] => none
              | '=' :: value => some (String.ofList value)
              | value => some (String.ofList value)
            progress.begin key spec attached?
      | none =>
          if letter = 'h' then progress.settle.bind fun _ => .error .help
          else .error (.unknownArgument (String.ofList ['-', letter]))

def readFrom [DecidableEq Key] (grammar : Grammar Key) (progress : Progress Key) :
    List String → Except UsageError (List (Occurrence Key))
  | [] => progress.settle.map Progress.complete
  | text :: rest =>
      match Argument.ofText text.toList with
      | .separator =>
          match rest with
          | [] => progress.settle.map Progress.complete
          | value :: _ => .error (.unknownArgument value)
      | .option name attached? => do
          let progress ← grammar.readName progress name attached?
          grammar.readFrom progress rest
      | .letters first letters =>
          let negative := progress.expecting?.any (·.negativeNumbers) && isNumeral (first :: letters)
          if negative then
            grammar.readFrom (progress.push text) rest
          else do
            let progress ← grammar.readLetters progress (first :: letters)
            grammar.readFrom progress rest
      | .plain =>
          if progress.expecting?.isSome then grammar.readFrom (progress.push text) rest
          else .error (.unknownArgument text)

def read [DecidableEq Key] (grammar : Grammar Key) (arguments : List String) :
    Except UsageError (List (Occurrence Key)) :=
  grammar.readFrom Progress.start arguments

end Grammar

end FrameTiming.CommandLine

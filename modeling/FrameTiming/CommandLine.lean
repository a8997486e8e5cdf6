import FrameTiming.CommandLine.Options

/-! # Command line

The arguments of the program name a command and its options. Without a command, help and version can
be asked for.
-/

namespace FrameTiming.CommandLine

inductive Command where
  | analyze (options : AnalyzeOptions)
  | timeline (options : TimelineOptions)
deriving DecidableEq

inductive CommandName where
  | analyze
  | timeline
  | help
deriving DecidableEq, Repr

namespace CommandName

def ofText? : String → Option CommandName
  | "analyze" => some .analyze
  | "timeline" => some .timeline
  | "help" => some .help
  | _ => none

end CommandName

/-- What stands behind `help`: nothing, or a single command. -/
private def helpFor : List String → UsageError
  | [] => .help
  | name :: rest =>
      match CommandName.ofText? name, rest with
      | none, _ => .unknownCommand name
      | some _, [] => .help
      | some _, other :: _ => .unknownCommand other

private def leadingLetter (letter : Char) : UsageError :=
  if letter = 'h' then .help
  else if letter = 'V' then .version
  else .unknownArgument (String.ofList ['-', letter])

def parse : List String → Except UsageError Command
  | [] => .error .missingCommand
  | text :: rest =>
      match CommandName.ofText? text with
      | some .help => .error (helpFor rest)
      | some .analyze =>
          (analyzeGrammar.read rest).map fun occurrences =>
            .analyze (AnalyzeOptions.ofOccurrences occurrences)
      | some .timeline =>
          (timelineGrammar.read rest).map fun occurrences =>
            .timeline (TimelineOptions.ofOccurrences occurrences)
      | none =>
          match Argument.ofText text.toList with
          | .separator =>
              match rest with
              | [] => .error .missingCommand
              | value :: _ =>
                  if (CommandName.ofText? value).isSome then .error (.unknownArgument value)
                  else .error (.unknownCommand value)
          | .option name attached? =>
              if name ≠ "help" ∧ name ≠ "version" then .error (.unknownArgument text)
              else if attached?.isSome then .error (.unexpectedValue name)
              else .error (if name = "help" then .help else .version)
          | .letters first _ => .error (leadingLetter first)
          | .plain => .error (.unknownCommand text)

end FrameTiming.CommandLine

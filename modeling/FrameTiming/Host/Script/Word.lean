import FrameTiming.Text.Blank

/-! # Words of scripts

A script is read into words, redirections of input and output, and the joints between commands.
Words consist of pieces, because a part of a word may stand for a value that is known only when the
command runs.
-/

namespace FrameTiming.Host.Script

open FrameTiming.Text

/-- A part of a word. The value of a parameter in quotes stays one word. -/
inductive Piece where
  | text (characters : List Char)
  | parameter (name : String) (quoted : Bool)
deriving DecidableEq, Repr

inductive Direction where
  | input
  | replace
  | append
  | stream
deriving DecidableEq, Repr

inductive Joint where
  | always
  | ifSucceeded
  | ifFailed
deriving DecidableEq, Repr

inductive Token where
  | word (pieces : List Piece)
  | redirect (stream : Nat) (direction : Direction)
  | joint (joint : Joint)
deriving DecidableEq, Repr

/-- The name of the parameter behind a dollar sign, and the rest. Special parameters and positions
have one character, other names run as far as they can. -/
def parameter? : List Char → Option (String × List Char)
  | [] => none
  | '{' :: rest =>
      (splitOnce? '}' rest).map fun (name, after) => (String.ofList name, after)
  | first :: rest =>
      let name := (first :: rest).takeWhile fun char => char.isAlphanum || char = '_'
      if first ∈ ['@', '#', '*', '?', '$', '!', '-'] ∨ first.isDigit then
        some (String.singleton first, rest)
      else if name.isEmpty then
        none
      else
        some (String.ofList name, (first :: rest).drop name.length)

def direction? : List Char → Option (Direction × List Char)
  | '>' :: '>' :: rest => some (.append, rest)
  | '>' :: '&' :: rest | '<' :: '&' :: rest => some (.stream, rest)
  | '>' :: '|' :: rest | '>' :: rest => some (.replace, rest)
  | '<' :: rest => some (.input, rest)
  | _ => none

def joint? : List Char → Option (Joint × List Char)
  | '&' :: '&' :: rest => some (.ifSucceeded, rest)
  | '|' :: '|' :: rest => some (.ifFailed, rest)
  | '&' :: rest | '|' :: rest | ';' :: rest | '\n' :: rest => some (.always, rest)
  | _ => none

private def streamNumber? : Option (List Piece) → Option Nat
  | some [.text [digit]] => if digit.isDigit then some (digit.toNat - '0'.toNat) else none
  | _ => none

/-- The tokens of a text; every step takes a character at least, so its length is fuel enough.
`quote?` is the open quote and `word?` the open word, latest piece first. -/
def tokensFrom : (fuel : Nat) → (quote? : Option Char) → (word? : Option (List Piece)) →
    List Char → List Token
  | fuel + 1, none, word?, char :: rest =>
      let closed := word?.toList.map fun word => Token.word word.reverse
      let extended (piece : Piece) := some (piece :: word?.getD [])
      match direction? (char :: rest), joint? (char :: rest) with
      | some (direction, after), _ =>
          let standard := if char = '<' then 0 else 1
          match streamNumber? word? with
          | some stream => .redirect stream direction :: tokensFrom fuel none none after
          | none => closed ++ .redirect standard direction :: tokensFrom fuel none none after
      | none, some (joint, after) => closed ++ .joint joint :: tokensFrom fuel none none after
      | none, none =>
          if char = ' ' ∨ char = '\t' then closed ++ tokensFrom fuel none none rest
          else if char = '#' ∧ word?.isNone then
            tokensFrom fuel none none (rest.dropWhile (· ≠ '\n'))
          else if char = '"' ∨ char = '\'' then
            tokensFrom fuel (some char) (extended (.text [])) rest
          else match char, rest with
            | '\\', '\n' :: rest => tokensFrom fuel none word? rest
            | '\\', escaped :: rest =>
                tokensFrom fuel none (some (.text [escaped] :: .text [] :: word?.getD [])) rest
            | _, _ => match (if char = '$' then parameter? rest else none) with
                | some (name, after) =>
                    tokensFrom fuel none (extended (.parameter name false)) after
                | none => tokensFrom fuel none (extended (.text [char])) rest
  | fuel + 1, some quote, word?, char :: rest =>
      let extended (piece : Piece) := some (piece :: word?.getD [])
      if char = quote then tokensFrom fuel none word? rest
      else match (if quote = '"' then some char else none), rest with
        | some '\\', '\n' :: rest => tokensFrom fuel (some quote) word? rest
        | some '\\', escaped :: after =>
            if escaped ∈ ['$', '"', '\\', '\x60'] then
              tokensFrom fuel (some quote) (extended (.text [escaped])) after
            else
              tokensFrom fuel (some quote) (extended (.text [char])) rest
        | some '$', _ => match parameter? rest with
            | some (name, after) =>
                tokensFrom fuel (some quote) (extended (.parameter name true)) after
            | none => tokensFrom fuel (some quote) (extended (.text [char])) rest
        | _, _ => tokensFrom fuel (some quote) (extended (.text [char])) rest
  | _, _, word?, _ => word?.toList.map fun word => .word word.reverse

def tokens (script : List Char) : List Token :=
  tokensFrom script.length none none script

/-- The commands of a script, each with the joint in front of it. Of joints in a row, as at the end of
a line, the first one counts. -/
def commands (tokens : List Token) : List (Joint × List Token) :=
  let (first, others) := tokens.foldr
    (fun token (command, later) => match token, command, later with
      | .joint joint, [], (_, next) :: later => ([], (joint, next) :: later)
      | .joint joint, command, later => ([], (joint, command) :: later)
      | token, command, later => (token :: command, later)) ([], [])
  (.always, first) :: others

example : tokens "a\"$b c\" 2>&1 # d\n".toList
    = [.word [.text ['a'], .text [], .parameter "b" true, .text [' '], .text ['c']],
      .redirect 2 .stream, .word [.text ['1']], .joint .always] := by decide +kernel
example : (commands (tokens "a &&\nb; c".toList)).map (·.1) = [.always, .ifSucceeded, .always] := by
  decide +kernel

end FrameTiming.Host.Script

import FrameTiming.Number.Literal

/-! # What scripts print

The commands that print their arguments give a meaning to backslashes and, for one of them, to percent
signs. Both rules are here, as functions on texts.
-/

namespace FrameTiming.Host.Script

open FrameTiming.Number

def escapedLetter? : Char → Option Char
  | '\\' => some '\\'
  | 'a' => some '\x07'
  | 'b' => some '\x08'
  | 'f' => some '\x0c'
  | 'n' => some '\n'
  | 'r' => some '\r'
  | 't' => some '\t'
  | 'v' => some '\x0b'
  | _ => none

/-- The text with its backslash sequences replaced, and whether printing goes on behind it: `\c` ends
it. The number of a character has up to three octal digits, with or without a zero in front. Every
step takes a character at least, so the length of the text is fuel enough. -/
def unescapeFrom : (fuel : Nat) → List Char → List Char × Bool
  | _ + 1, '\\' :: 'c' :: _ => ([], false)
  | fuel + 1, '\\' :: char :: rest =>
      let behindZero := if char = '0' ∧ rest.head?.any (digitValue? 8 · |>.isSome) then rest
        else char :: rest
      let digits := (behindZero.take 3).takeWhile fun digit => (digitValue? 8 digit).isSome
      let (replaced, after) := match escapedLetter? char, digits with
        | some letter, _ => ([letter], rest)
        | none, [] => (['\\'], char :: rest)
        | none, digits =>
            ([Char.ofNat ((ofDigits? 8 0 digits).getD 0 % 256)], behindZero.drop digits.length)
      let (printed, goesOn) := unescapeFrom fuel after
      (replaced ++ printed, goesOn)
  | fuel + 1, char :: rest =>
      let (printed, goesOn) := unescapeFrom fuel rest
      (char :: printed, goesOn)
  | _, text => (text, true)

def unescape (text : List Char) : List Char × Bool :=
  unescapeFrom text.length text

def echoed (ending : List Char) : List (List Char) → List Char
  | [] => ending
  | word :: rest =>
      match unescape word, rest with
      | (printed, false), _ => printed
      | (printed, true), [] => printed ++ ending
      | (printed, true), rest => printed ++ ' ' :: echoed ending rest

/-- What echoing the arguments prints; `-n` in front leaves the line open. -/
def echo : List String → List Char
  | "-n" :: words => echoed [] (words.map String.toList)
  | words => echoed ['\n'] (words.map String.toList)

def formatOnce : List Char → List String → List Char × List String
  | '%' :: '%' :: rest, arguments =>
      let (printed, left) := formatOnce rest arguments
      ('%' :: printed, left)
  | '%' :: directive :: rest, arguments =>
      let value := match directive, arguments.head? with
        | 'd', none | 'i', none | 'u', none => ['0']
        | 'b', some argument => (unescape argument.toList).1
        | 'c', some argument => argument.toList.take 1
        | _, argument? => (argument?.getD "").toList
      let (printed, left) := formatOnce rest arguments.tail
      (value ++ printed, left)
  | char :: rest, arguments =>
      let (printed, left) := formatOnce rest arguments
      (char :: printed, left)
  | [], arguments => ([], arguments)

/-- What printing the arguments by a format prints. The format is used again as long as arguments
are left that it takes. -/
def formatted (format : List Char) : (fuel : Nat) → List String → List Char
  | 0, _ => []
  | fuel + 1, arguments =>
      match formatOnce format arguments with
      | (printed, []) => printed
      | (printed, left) =>
          if left.length < arguments.length then printed ++ formatted format fuel left
          else printed

example : String.ofList (echo ["a\\tb\\0101\\q", "c\\cd", "e"]) = "a\tbA\\q c" := by decide +kernel
example : String.ofList (formatted "%s=%d\n".toList 4 ["a", "1", "b"]) = "a=1\nb=0\n" := by
  decide +kernel

end FrameTiming.Host.Script

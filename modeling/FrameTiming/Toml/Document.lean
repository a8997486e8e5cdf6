import FrameTiming.Toml.Scalar
import FrameTiming.Toml.Text

/-! # TOML documents

A document is a sequence of lines: headers, which open tables, and keys with values, which go into
the table that is open. The reader gives the entries of the outermost table, or nothing for a text
that is not a document.
-/

namespace FrameTiming.Toml

/-! ## Values with parts -/

/-- Arrays and inline tables may be nested up to this depth, and a key may have this many parts. -/
def depthLimit : Nat := 79

mutual

/-- A value and the text behind it. The fuel bounds the length of the recursion, `depth` is what is
left of `depthLimit`. -/
def value? : (fuel depth : Nat) → List Char → Option (Value × List Char)
  | 0, _, _ => none
  | fuel + 1, depth, text =>
      match text with
      | '"' :: _ | '\'' :: _ => (string? text).map fun (content, rest) => (.string content, rest)
      | '[' :: rest => match depth with
          | 0 => none
          | depth + 1 => (elements? fuel depth rest).map fun (elements, rest) => (.array elements, rest)
      | '{' :: rest => match depth with
          | 0 => none
          | depth + 1 => match rest.dropWhile isSpace with
              | '}' :: rest => some (.table .inlined [], rest)
              | rest => (pairs? fuel depth [] rest).map fun (entries, rest) =>
                  (.table .inlined entries, rest)
      | _ => scalar? text

def elements? : (fuel depth : Nat) → List Char → Option (List Value × List Char)
  | 0, _, _ => none
  | fuel + 1, depth, text => do
      match ← skipLines? false text with
      | ']' :: rest => some ([], rest)
      | text =>
          let (element, rest) ← value? fuel depth text
          match ← skipLines? false rest with
          | ']' :: rest => some ([element], rest)
          | ',' :: rest => (elements? fuel depth rest).map fun (elements, rest) =>
              (element :: elements, rest)
          | _ => none

def pairs? : (fuel depth : Nat) → Entries → List Char → Option (Entries × List Char)
  | 0, _, _, _ => none
  | fuel + 1, depth, entries, text => do
      let (path, key, value, rest) ← pair? fuel depth text
      let entries ← entries.insertDotted? key value path
      match rest.dropWhile isSpace with
      | '}' :: rest => some (entries, rest)
      | ',' :: rest => pairs? fuel depth entries rest
      | _ => none

def pair? : (fuel depth : Nat) → List Char → Option (List String × String × Value × List Char)
  | 0, _, _ => none
  | fuel + 1, depth, text => do
      let (parts, rest) ← key? text
      let key ← parts.getLast?
      match rest with
      | '=' :: rest =>
          let (value, rest) ← value? fuel depth (rest.dropWhile isSpace)
          if parts.length ≤ depthLimit then some (parts.dropLast, key, value, rest) else none
      | _ => none

end

/-! ## Lines -/

private def header? (closing : List Char) (text : List Char) :
    Option (List String × String × List Char) := do
  let (parts, rest) ← key? text
  let key ← parts.getLast?
  if closing.isPrefixOf rest ∧ parts.length ≤ depthLimit then
    some (parts.dropLast, key, rest.drop closing.length)
  else
    none

/-- Reads lines into the entries of a document. `opened` leads to the table that is open. Every line
takes a character, so the length of the text is fuel enough. -/
private def lines? : (fuel : Nat) → Entries → (opened : List String) → List Char → Option Entries
  | 0, entries, _, text => if text.isEmpty then some entries else none
  | fuel + 1, entries, opened, text =>
      match text.dropWhile isSpace with
      | [] => some entries
      | '[' :: '[' :: rest => do
          let (path, key, rest) ← header? [']', ']'] rest
          let entries ← entries.openElement? path key
          lines? fuel entries (path ++ [key]) (← endLine? rest)
      | '[' :: rest => do
          let (path, key, rest) ← header? [']'] rest
          let entries ← entries.openTable? path key
          lines? fuel entries (path ++ [key]) (← endLine? rest)
      | text =>
          if text.head? ∈ [some '#', some '\n', some '\r'] then do
            lines? fuel entries opened (← endLine? text)
          else do
            let (path, key, value, rest) ← pair? (text.length + 1) depthLimit text
            let entries ← entries.descend? (Entries.insertDotted? key value path) opened
            lines? fuel entries opened (← endLine? rest)

def parse? (document : String) : Option Entries :=
  let text := match document.toList with
    | '\ufeff' :: rest => rest
    | text => text
  lines? text.length [] [] text

end FrameTiming.Toml

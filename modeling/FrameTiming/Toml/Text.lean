/-! # TOML strings

Strings between quotes, on one line or on several, and the blanks and comments between other parts. A
reader gives the content and the text behind it.
-/

namespace FrameTiming.Toml

/-! ## Characters -/

def isSpace (char : Char) : Bool :=
  char = ' ' || char = '\t'

/-- Characters that may occur in comments and literal strings: all but control characters, of which
only the tabulator is left. -/
def isPrintable (char : Char) : Bool :=
  char = '\t' || (0x20 ≤ char.toNat && char.toNat ≠ 0x7f)

/-! ## Strings -/

private def hexValue? (digits : List Char) : Option Char := do
  let code ← digits.foldlM (fun value digit =>
    if digit.isDigit then some (value * 16 + (digit.toNat - '0'.toNat))
    else if 'a' ≤ digit ∧ digit ≤ 'f' then some (value * 16 + (digit.toNat - 'a'.toNat + 10))
    else if 'A' ≤ digit ∧ digit ≤ 'F' then some (value * 16 + (digit.toNat - 'A'.toNat + 10))
    else none) 0
  if valid : code.isValidChar then some (Char.ofNatAux code valid) else none

private def escaped? : Char → Option Char
  | 'b' => some '\x08'
  | 't' => some '\t'
  | 'n' => some '\n'
  | 'f' => some '\x0c'
  | 'r' => some '\r'
  | '"' => some '"'
  | '\\' => some '\\'
  | _ => none

private def withChar (char : Char) : List Char × List Char → List Char × List Char
  | (content, rest) => (char :: content, rest)

private def endsLine (text : List Char) : Bool :=
  match text.dropWhile isSpace with
  | '\n' :: _ | '\r' :: '\n' :: _ => true
  | _ => false

def basic? : List Char → Option (List Char × List Char)
  | [] => none
  | '"' :: rest => some ([], rest)
  | '\\' :: 'u' :: a :: b :: c :: d :: rest => do
      let char ← hexValue? [a, b, c, d]
      (basic? rest).map (withChar char)
  | '\\' :: 'U' :: a :: b :: c :: d :: e :: f :: g :: h :: rest => do
      let char ← hexValue? [a, b, c, d, e, f, g, h]
      (basic? rest).map (withChar char)
  | '\\' :: letter :: rest => do
      let char ← escaped? letter
      (basic? rest).map (withChar char)
  | char :: rest =>
      if isPrintable char ∧ char ≠ '\\' then (basic? rest).map (withChar char) else none

/-- The rest of a string on several lines with escapes. A backslash at the end of a line drops the
line end and all blanks behind it; `dropping` is set there. Up to two quotes may stand right before
the closing ones. -/
def basicLines? (dropping : Bool) : List Char → Option (List Char × List Char)
  | [] => none
  | '"' :: '"' :: '"' :: '"' :: '"' :: rest => some (['"', '"'], rest)
  | '"' :: '"' :: '"' :: '"' :: rest => some (['"'], rest)
  | '"' :: '"' :: '"' :: rest => some ([], rest)
  | '\\' :: 'u' :: a :: b :: c :: d :: rest => do
      let char ← hexValue? [a, b, c, d]
      (basicLines? false rest).map (withChar char)
  | '\\' :: 'U' :: a :: b :: c :: d :: e :: f :: g :: h :: rest => do
      let char ← hexValue? [a, b, c, d, e, f, g, h]
      (basicLines? false rest).map (withChar char)
  | '\\' :: letter :: rest =>
      if endsLine (letter :: rest) then
        basicLines? true (letter :: rest)
      else do
        let char ← escaped? letter
        (basicLines? false rest).map (withChar char)
  | '\r' :: '\n' :: rest =>
      if dropping then basicLines? true rest else (basicLines? false rest).map (withChar '\n')
  | '\n' :: rest =>
      if dropping then basicLines? true rest else (basicLines? false rest).map (withChar '\n')
  | char :: rest =>
      if dropping ∧ isSpace char then basicLines? true rest
      else if isPrintable char ∧ char ≠ '\\' then (basicLines? false rest).map (withChar char)
      else none

def literal? : List Char → Option (List Char × List Char)
  | [] => none
  | '\'' :: rest => some ([], rest)
  | char :: rest => if isPrintable char then (literal? rest).map (withChar char) else none

def literalLines? : List Char → Option (List Char × List Char)
  | [] => none
  | '\'' :: '\'' :: '\'' :: '\'' :: '\'' :: rest => some (['\'', '\''], rest)
  | '\'' :: '\'' :: '\'' :: '\'' :: rest => some (['\''], rest)
  | '\'' :: '\'' :: '\'' :: rest => some ([], rest)
  | '\r' :: '\n' :: rest => (literalLines? rest).map (withChar '\n')
  | '\n' :: rest => (literalLines? rest).map (withChar '\n')
  | char :: rest => if isPrintable char then (literalLines? rest).map (withChar char) else none

/-- A line end right behind the opening quotes belongs to none of the lines. -/
private def skipFirstLineEnd : List Char → List Char
  | '\n' :: rest => rest
  | '\r' :: '\n' :: rest => rest
  | text => text

def string? (text : List Char) : Option (String × List Char) :=
  let parsed? := match text with
    | '"' :: '"' :: '"' :: rest => basicLines? false (skipFirstLineEnd rest)
    | '"' :: rest => basic? rest
    | '\'' :: '\'' :: '\'' :: rest => literalLines? (skipFirstLineEnd rest)
    | '\'' :: rest => literal? rest
    | _ => none
  parsed?.map fun (content, rest) => (String.ofList content, rest)

/-! ## Keys -/

private def isBareChar (char : Char) : Bool :=
  char.isAlphanum || char = '_' || char = '-'

def keyPart? (text : List Char) : Option (String × List Char) :=
  match text with
  | '"' :: rest => (basic? rest).map fun (content, rest) => (String.ofList content, rest)
  | '\'' :: rest => (literal? rest).map fun (content, rest) => (String.ofList content, rest)
  | _ =>
      let bare := text.takeWhile isBareChar
      if bare.isEmpty then none else some (String.ofList bare, text.drop bare.length)

/-- The parts of a dotted key, each with blanks around it. Every part takes a character, so the
length of the text is fuel enough. -/
def keyFrom? : (fuel : Nat) → List Char → Option (List String × List Char)
  | 0, _ => none
  | fuel + 1, text => do
      let (part, rest) ← keyPart? (text.dropWhile isSpace)
      match rest.dropWhile isSpace with
      | '.' :: rest => (keyFrom? fuel rest).map fun (parts, rest) => (part :: parts, rest)
      | rest => some ([part], rest)

def key? (text : List Char) : Option (List String × List Char) :=
  keyFrom? (text.length + 1) text

/-! ## Blanks -/

def skipLines? (inComment : Bool) : List Char → Option (List Char)
  | [] => some []
  | '\n' :: rest => skipLines? false rest
  | '\r' :: '\n' :: rest => skipLines? false rest
  | char :: rest =>
      if inComment then
        if isPrintable char then skipLines? true rest else none
      else if isSpace char then skipLines? false rest
      else if char = '#' then skipLines? true rest
      else some (char :: rest)

def endLine? (text : List Char) : Option (List Char) :=
  let rest := match text.dropWhile isSpace with
    | '#' :: rest => rest.dropWhile isPrintable
    | rest => rest
  match rest with
  | [] => some []
  | '\n' :: rest => some rest
  | '\r' :: '\n' :: rest => some rest
  | _ => none

end FrameTiming.Toml

import FrameTiming.Number.Literal
import FrameTiming.Toml.Value

/-! # TOML scalars

Values without parts that are written without quotes: booleans, numbers, dates and times. A scalar is
the longest run of characters that may occur in one.
-/

namespace FrameTiming.Toml

open Number (Decimal digitValue? natural? splitSign toInt64?)

/-! ## Numbers -/

/-- The digits of a number without the separators, each of which stands between two digits. -/
private def separated? (base : Nat) : List Char → Option (List Char)
  | [] => none
  | first :: rest => if (digitValue? base first).isSome then (tail rest).map (first :: ·) else none
where
  tail : List Char → Option (List Char)
    | [] => some []
    | '_' :: char :: rest =>
        if (digitValue? base char).isSome then (tail rest).map (char :: ·) else none
    | char :: rest => if (digitValue? base char).isSome then (tail rest).map (char :: ·) else none

/-- The digits of a decimal number, which has no zero in front. -/
private def wholeDigits? (text : List Char) : Option (List Char) :=
  match separated? 10 text with
  | some ('0' :: _ :: _) => none
  | digits? => digits?

private def toWord? (value : Int) : Option Value :=
  (toInt64? value).map .integer

private def integer? (text : List Char) : Option Value :=
  let based (base : Nat) (digits : List Char) : Option Value := do
    toWord? (← natural? base (← separated? base digits))
  match text with
  | '0' :: 'x' :: digits => based 16 digits
  | '0' :: 'o' :: digits => based 8 digits
  | '0' :: 'b' :: digits => based 2 digits
  | _ => do
      let (sign, rest) := splitSign text
      let magnitude ← natural? 10 (← wholeDigits? rest)
      toWord? (if sign = some '-' then -magnitude else magnitude)

/-- A number with a fraction, an exponent or both. A number too large for the format is refused,
unless it is negative. -/
private def float? (text : List Char) : Option Value := do
  let (sign, rest) := splitSign text
  let negative := sign = some '-'
  let signed (magnitude : Float) : Float := if negative then -magnitude else magnitude
  if rest = ['i', 'n', 'f'] then
    return .float (signed (1.0 / 0.0))
  if rest = ['n', 'a', 'n'] then
    return .float (0.0 / 0.0)
  let isMark (char : Char) : Bool := char = 'e' || char = 'E'
  let mantissa := rest.takeWhile (!isMark ·)
  let whole := mantissa.takeWhile (· ≠ '.')
  let wholeDigits ← wholeDigits? whole
  let fractionDigits ← match mantissa.drop whole.length with
    | [] => some []
    | _ :: fraction => separated? 10 fraction
  let exponent ← match rest.drop mantissa.length with
    | [] => some 0
    | _ :: exponentText => do
        let (exponentSign, exponentRest) := splitSign exponentText
        let magnitude ← natural? 10 (← separated? 10 exponentRest)
        some (if exponentSign = some '-' then -(magnitude : Int) else magnitude)
  if mantissa.length = rest.length ∧ whole.length = mantissa.length then
    none
  else
    let significand ← natural? 10 (wholeDigits ++ fractionDigits)
    let value := (⟨significand, exponent - fractionDigits.length⟩ : Decimal).toFloat
    if value.isInf ∧ ¬negative then none else some (.float (signed value))

/-! ## Dates and times -/

/-- The number that `count` digits form, and the rest. -/
private def digitsOf? (count : Nat) (text : List Char) : Option (Nat × List Char) := do
  let digits := text.take count
  if digits.length = count then some (← natural? 10 digits, text.drop count) else none

private def sign? (expected : Char) (text : List Char) : Option (List Char) :=
  if text.head? = some expected then some text.tail else none

private def daysInMonth (year month : Nat) : Nat :=
  if month = 2 then
    if year % 4 = 0 ∧ (year % 100 ≠ 0 ∨ year % 400 = 0) then 29 else 28
  else if month ∈ [4, 6, 9, 11] then 30
  else 31

private def date? (text : List Char) : Option (List Char) := do
  let (year, text) ← digitsOf? 4 text
  let (month, text) ← digitsOf? 2 (← sign? '-' text)
  let (day, text) ← digitsOf? 2 (← sign? '-' text)
  if 1 ≤ month ∧ month ≤ 12 ∧ 1 ≤ day ∧ day ≤ daysInMonth year month then some text else none

private def hoursAndMinutes? (text : List Char) : Option (List Char) := do
  let (hour, text) ← digitsOf? 2 text
  let (minute, text) ← digitsOf? 2 (← sign? ':' text)
  if hour ≤ 23 ∧ minute ≤ 59 then some text else none

/-- What follows a time, which may have a fraction of a second and a leap second. -/
private def time? (text : List Char) : Option (List Char) := do
  let (second, text) ← digitsOf? 2 (← sign? ':' (← hoursAndMinutes? text))
  if second ≤ 60 then
    match text with
    | '.' :: digit :: rest => if digit.isDigit then some (rest.dropWhile Char.isDigit) else none
    | text => some text
  else
    none

/-- Whether an offset from universal time, or nothing, ends the text. -/
private def isOffset (text : List Char) : Bool :=
  match text with
  | [] | ['Z'] | ['z'] => true
  | sign :: rest => (sign = '+' || sign = '-') && hoursAndMinutes? rest = some []

private def isDateTime (text : List Char) : Bool :=
  match date? text with
  | some [] => true
  | some (delimiter :: rest) =>
      delimiter ∈ ['T', 't', ' '] && (match time? rest with
        | some offset => isOffset offset
        | none => false)
  | none => time? text = some []

/-! ## Scalars -/

private def isScalarChar (char : Char) : Bool :=
  char.isAlphanum || char ∈ ['_', '+', '-', '.', ':']

/-- A date and a time may be separated by a blank; the blank is followed by hours then. -/
private def scalarLength (text : List Char) : Nat :=
  let length := (text.takeWhile isScalarChar).length
  match (date? text).map fun rest => (rest, hoursAndMinutes? (rest.drop 1)) with
  | some (' ' :: rest, some _) => length + 1 + (rest.takeWhile isScalarChar).length
  | _ => length

private def ofText? (text : List Char) : Option Value :=
  match text with
  | ['t', 'r', 'u', 'e'] => some (.boolean true)
  | ['f', 'a', 'l', 's', 'e'] => some (.boolean false)
  | _ => if isDateTime text then some .dateTime else integer? text <|> float? text

def scalar? (text : List Char) : Option (Value × List Char) :=
  let length := scalarLength text
  (ofText? (text.take length)).map fun value => (value, text.drop length)

end FrameTiming.Toml

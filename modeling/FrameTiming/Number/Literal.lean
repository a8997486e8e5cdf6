import FrameTiming.Number.Decimal

/-! # Reading numbers

Literals of whole numbers in a word and of floating-point numbers. A literal is a whole text: blanks
around it, digit separators and trailing characters are refused, and so is a whole number that does
not fit.
-/

namespace FrameTiming.Number

/-! ## Digits -/

def digitValue? (base : Nat) (char : Char) : Option Nat :=
  let value :=
    if char.isDigit then some (char.toNat - '0'.toNat)
    else if 'a' ≤ char ∧ char ≤ 'f' then some (char.toNat - 'a'.toNat + 10)
    else if 'A' ≤ char ∧ char ≤ 'F' then some (char.toNat - 'A'.toNat + 10)
    else none
  value.filter (· < base)

/-- The number that the digits denote, continuing from `start`. -/
def ofDigits? (base : Nat) : (start : Nat) → List Char → Option Nat
  | start, [] => some start
  | start, char :: rest =>
      match digitValue? base char with
      | some digit => ofDigits? base (start * base + digit) rest
      | none => none

def natural? (base : Nat) (text : List Char) : Option Nat :=
  if text.isEmpty then none else ofDigits? base 0 text

def splitSign : List Char → Option Char × List Char
  | '+' :: rest => (some '+', rest)
  | '-' :: rest => (some '-', rest)
  | text => (none, text)

/-! ## Whole numbers -/

/-- An unsigned word: digits behind an optional plus sign. -/
def unsigned? (base : Nat) (text : List Char) : Option UInt64 :=
  match splitSign text with
  | (some '-', _) => none
  | (_, digits) => ((natural? base digits).filter (· < UInt64.size)).map UInt64.ofNat

def toInt64? (value : Int) : Option Int64 :=
  if Int64.minValue.toInt ≤ value ∧ value ≤ Int64.maxValue.toInt then
    some (Int64.ofInt value)
  else
    none

def signed? (text : List Char) : Option Int64 :=
  match splitSign text with
  | (some '-', digits) => (natural? 10 digits).bind fun value => toInt64? (-value)
  | (_, digits) => (natural? 10 digits).bind fun value => toInt64? value

example : unsigned? 10 "+18446744073709551615".toList = some 18446744073709551615 := by decide +kernel
example : unsigned? 10 "-0".toList = none ∧ signed? "-0".toList = some 0 := by decide +kernel
example : unsigned? 16 "fF".toList = some 255 ∧ signed? "9223372036854775808".toList = none := by
  decide +kernel

/-! ## Floating-point numbers -/

/-- A decimal with an optional fraction and an optional exponent; the fraction or the whole part may
be empty, but not both. -/
def decimal? (text : List Char) : Option Decimal :=
  let whole := text.takeWhile Char.isDigit
  let afterWhole := text.dropWhile Char.isDigit
  let (fraction, afterFraction) :=
    match afterWhole with
    | '.' :: rest => (rest.takeWhile Char.isDigit, rest.dropWhile Char.isDigit)
    | rest => ([], rest)
  let exponent? : Option Int :=
    match afterFraction with
    | [] => some 0
    | mark :: rest =>
        if mark = 'e' ∨ mark = 'E' then
          match splitSign rest with
          | (some '-', digits) => (natural? 10 digits).map fun value => -(value : Int)
          | (_, digits) => (natural? 10 digits).map fun value => (value : Int)
        else
          none
  match natural? 10 (whole ++ fraction), exponent? with
  | some significand, some exponent => some ⟨significand, exponent - fraction.length⟩
  | _, _ => none

private def special? (text : List Char) : Option Float :=
  match String.ofList (text.map Char.toLower) with
  | "inf" | "infinity" => some (1.0 / 0.0)
  | "nan" => some (0.0 / 0.0)
  | _ => none

/-- A floating-point number: an optional sign and a decimal or a word, rounded to the nearest
number. -/
def float? (text : List Char) : Option Float :=
  let (sign, rest) := splitSign text
  let magnitude? := (decimal? rest).map Decimal.toFloat <|> special? rest
  magnitude?.map fun magnitude => if sign = some '-' then -magnitude else magnitude

example : float? "-.5".toList = some (-0.5) ∧ float? "5.".toList = some 5 := by decide +kernel
example : float? ".".toList = none ∧ float? "1e".toList = none ∧ float? "".toList = none := by
  decide +kernel

end FrameTiming.Number

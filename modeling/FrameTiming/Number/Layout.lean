import FrameTiming.Number.Decimal

/-! # Decimal text

How a number is laid out as text: with a fixed number of places, with a fixed number of places in
front of an exponent, or with the fewest digits. Only the last leaves choices to the format that
uses it; they are the fields of `Layout`.
-/

namespace FrameTiming.Number

/-! ## Parts -/

private def signText (negative : Bool) : String :=
  if negative then "-" else ""

private def zeros (count : Nat) : List Char :=
  List.replicate count '0'

private def signed (value : Float) (zero : String) (magnitude : Binary → String) : String :=
  match shape value with
  | .nan => "NaN"
  | .infinite negative => signText negative ++ "inf"
  | .zero negative => signText negative ++ zero
  | .finite negative binary => signText negative ++ magnitude binary

private def pointed (digits : List Char) (places : Nat) : String :=
  let whole := digits.length - places
  if places = 0 then
    String.ofList digits
  else
    String.ofList (digits.take whole ++ '.' :: digits.drop whole)

/-! ## A fixed number of places -/

/-- The exact value rounded to `places` decimal places, a tie to the even neighbour. -/
def fixed (places : Nat) (value : Float) : String :=
  let written (decimal : Decimal) : String :=
    let digits := decimal.digits
    pointed (zeros (places + 1 - digits.length) ++ digits) places
  signed value (written ⟨0, 0⟩) fun binary => written (binary.roundTo (-places) .toEven)

/-- The exact value rounded to `places` places behind the leading digit, a tie to the even
neighbour, with the power of ten behind an `e`. -/
def scientific (places : Nat) (value : Float) : String :=
  let written (decimal : Decimal) : String :=
    pointed (decimal.digits.take (places + 1)) places ++ "e" ++ toString decimal.scientificExponent
  signed value (pointed (zeros (places + 1)) places ++ "e0") fun binary =>
    written (binary.roundTo (binary.place - 1 - places) .toEven)

/-! ## The fewest digits -/

structure Layout where
  /-- Which of two equally near decimals is written. -/
  tie : Tie
  /-- The scientific exponents that are written behind an `e`. -/
  exponential : Int → Bool
  wholeFraction : Bool
  plusSign : Bool

namespace Layout

private def positional (layout : Layout) (decimal : Decimal) : String :=
  let digits := decimal.digits
  let whole := digits.length + decimal.exponent
  if whole ≤ 0 then
    String.ofList ('0' :: '.' :: zeros (-whole).toNat ++ digits)
  else if 0 ≤ decimal.exponent then
    String.ofList (digits ++ zeros decimal.exponent.toNat)
      ++ (if layout.wholeFraction then ".0" else "")
  else
    pointed digits (-decimal.exponent).toNat

private def withExponent (layout : Layout) (decimal : Decimal) : String :=
  let digits := decimal.digits
  let exponent := decimal.scientificExponent
  pointed digits (digits.length - 1) ++ "e"
    ++ (if layout.plusSign && decide (0 < exponent) then "+" else "") ++ toString exponent

def decimalText (layout : Layout) (decimal : Decimal) : String :=
  if layout.exponential decimal.scientificExponent then
    layout.withExponent decimal
  else
    layout.positional decimal

def text (layout : Layout) (value : Float) : String :=
  signed value (layout.positional ⟨0, 0⟩) fun binary =>
    layout.decimalText (binary.shortest layout.tie)

end Layout

end FrameTiming.Number

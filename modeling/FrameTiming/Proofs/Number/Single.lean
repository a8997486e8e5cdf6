import FrameTiming.Number.Single
import FrameTiming.Proofs.Number.Magnitude

/-! # Single precision

Operations on finite single-precision numbers give the rounded exact result as long as that stays
below the limit of the format. So do the conversions between the formats.
-/

namespace FrameTiming.Number

open Float.Model (Format UnpackedFloat)

/-- What a finite single-precision number stands for. -/
def Single (number : Float32) (height : ℚ) : Prop :=
  Denotes .binary32 number.toModel.unpack height

theorem limit_binary32 : limit .binary32 = 2 ^ 128 := by
  have largest : largestExponent .binary32 = 104 := by decide
  have bits : Format.binary32.mantissaBits = 24 := rfl
  rw [limit, largest, bits]
  norm_num

theorem single_pack {unpacked : UnpackedFloat} {height : ℚ}
    (denotes : Denotes .binary32 unpacked height) (below : |height| < 2 ^ 128) :
    Single (.ofModel (.pack unpacked)) height := by
  have same := denotes.unpack_pack (by decide) (by rwa [limit_binary32])
  change Denotes .binary32
    (UnpackedFloat.unpack .binary32 (UnpackedFloat.pack .binary32 unpacked)) height
  rwa [same]

theorem single_zero : Single 0 0 :=
  .zero .positive

/-! ## Operations -/

section Operations

variable {left right : Float32} {first second : ℚ}

theorem Single.add (leftSingle : Single left first) (rightSingle : Single right second)
    (below : |rounded .binary32 (first + second)| < 2 ^ 128) :
    Single (left + right) (rounded .binary32 (first + second)) :=
  single_pack (Denotes.add leftSingle rightSingle) below

theorem Single.sub (leftSingle : Single left first) (rightSingle : Single right second)
    (below : |rounded .binary32 (first - second)| < 2 ^ 128) :
    Single (left - right) (rounded .binary32 (first - second)) :=
  single_pack (Denotes.sub leftSingle rightSingle) below

theorem Single.mul (leftSingle : Single left first) (rightSingle : Single right second)
    (below : |rounded .binary32 (first * second)| < 2 ^ 128) :
    Single (left * right) (rounded .binary32 (first * second)) :=
  single_pack (Denotes.mul leftSingle rightSingle) below

theorem Single.div (leftSingle : Single left first) (rightSingle : Single right second)
    (nonzero : second ≠ 0) (below : |rounded .binary32 (first / second)| < 2 ^ 128) :
    Single (left / right) (rounded .binary32 (first / second)) :=
  single_pack (Denotes.div leftSingle rightSingle nonzero) below

end Operations

/-! ## Conversions -/

/-- A number with its mantissa rounded to another format. -/
def converted (other : Format) : UnpackedFloat → UnpackedFloat
  | .finite sign mantissa exponent _ => .round other sign mantissa exponent
  | special => special

theorem Denotes.converted {format : Format} (other : Format) {unpacked : UnpackedFloat} {height : ℚ}
    (denotes : Denotes format unpacked height) :
    Denotes other (converted other unpacked) (rounded other height) := by
  cases denotes with
  | zero sign =>
      rw [rounded_zero]
      exact .zero sign
  | finite sign mantissa exponent positive canonical =>
      rw [rounded_withSign other sign (by positivity)]
      exact denotes_round other sign exponent positive

theorem single_narrow {number : Float} (finite : number.isFinite = true)
    (below : |rounded .binary32 (value number)| < 2 ^ 128) :
    Single (narrow number) (rounded .binary32 (value number)) :=
  single_pack ((denotes_of_isFinite finite).1.converted .binary32) below

theorem Single.value_widen {number : Float32} {height : ℚ} (single : Single number height) :
    value (widen number) = nearest height ∧ (widen number).isNaN = false :=
  value_pack (Denotes.converted .binary64 single)

end FrameTiming.Number

/-! # Single precision

Conversion between the two binary formats. Both directions keep the value where the other format
has it; otherwise the nearest number is taken, with ties to even, and what is too large becomes
infinite.
-/

namespace FrameTiming.Number

open Float.Model in
def narrow (value : Float) : Float32 :=
  .ofModel (.pack (match value.toModel.unpack with
    | .finite sign mantissa exponent _ =>
        UnpackedFloat.round Format.binary32 sign mantissa exponent
    | other => other))

open Float.Model in
def widen (value : Float32) : Float :=
  .ofModel (.pack (match value.toModel.unpack with
    | .finite sign mantissa exponent _ =>
        UnpackedFloat.round Format.binary64 sign mantissa exponent
    | other => other))

example : widen (narrow 0.5) = 0.5 := by decide +kernel
example : (narrow 0.1).toBits = 0x3dcccccd := by decide +kernel
example : (narrow 1e-46).toBits = 0 ∧ (narrow 1e39).toBits = 0x7f800000 := by decide +kernel

end FrameTiming.Number

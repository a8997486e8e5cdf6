/-! # A total order on floating-point numbers

`<` on `Float` leaves NaN incomparable and identifies the two zeros. Sorting needs an order without
gaps: negative NaN, negative numbers, `-0.0`, `0.0`, positive numbers, NaN. It is the order of the
bit patterns once the negative half is turned round.
-/

namespace FrameTiming.Number

/-- The position of a number in the total order. Patterns with the sign bit run downwards. -/
def orderKey (value : Float) : Int :=
  let bits := value.toBits.toNat
  if bits < 0x8000000000000000 then bits else 0x7fffffffffffffff - bits

/-- Whether `left` stands no later than `right` in the total order. -/
def totalLe (left right : Float) : Bool :=
  decide (orderKey left ≤ orderKey right)

example : totalLe (-0.0) 0.0 = true ∧ totalLe 0.0 (-0.0) = false := by decide
example : totalLe (-2.0) (-1.0) = true ∧ totalLe (1.0 / 0.0) (0.0 / 0.0) = true := by decide

theorem totalLe_total (left right : Float) : (totalLe left right || totalLe right left) = true := by
  simp only [totalLe, Bool.or_eq_true, decide_eq_true_eq]
  omega

theorem totalLe_trans (first second third : Float) (before : totalLe first second = true)
    (after : totalLe second third = true) : totalLe first third = true := by
  simp only [totalLe, decide_eq_true_eq] at *
  omega

def sortAscending (values : List Float) : List Float :=
  values.mergeSort totalLe

theorem sortAscending_perm (values : List Float) : (sortAscending values).Perm values :=
  List.mergeSort_perm values totalLe

end FrameTiming.Number

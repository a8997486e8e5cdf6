import FrameTiming.Proofs.Number.Nonnegative
import Mathlib.Algebra.BigOperators.Group.List.Basic

/-! # Sums

Whole numbers of up to 53 bits are doubles. As long as a sum stays among them it is exact, whatever
the order of the numbers. Rounded sums of numbers from zero on keep the order of the numbers.
-/

namespace FrameTiming.Number

/-! ## Whole numbers -/

theorem signless_ofNat (number : ℕ) : Signless (Float.ofNat number) := by
  rcases number.eq_zero_or_pos with rfl | positive
  · left
    rfl
  · exact .inr (zero_lt_ofNat positive)

theorem value_ofNat_of_le {number : ℕ} (exact : number ≤ 2 ^ 53) :
    value (Float.ofNat number) = number := by
  rw [(value_ofNat number).1, nearest_natCast exact]

/-- Numbers without a sign are told apart by their values. -/
theorem Signless.eq_of_value_eq {left right : Float} (leftSignless : Signless left)
    (rightSignless : Signless right) (same : value left = value right) : left = right := by
  have leftComparable := (zero_le_iff.mp leftSignless.zero_le).1
  have rightComparable := (zero_le_iff.mp rightSignless.zero_le).1
  exact leftSignless.eq_of_le_of_le rightSignless
    ((le_iff_value_le leftComparable rightComparable).mpr same.le)
    ((le_iff_value_le rightComparable leftComparable).mpr same.ge)

theorem toFloat_eq_ofNat (number : UInt64) : number.toFloat = Float.ofNat number.toNat :=
  (signless_toFloat number).eq_of_value_eq (signless_ofNat number.toNat)
    ((value_ofUInt64 number).1.trans (value_ofNat number.toNat).1.symm)

theorem ofNat_add_ofNat {left right : ℕ} (exact : left + right ≤ 2 ^ 53) :
    Float.ofNat left + Float.ofNat right = Float.ofNat (left + right) := by
  have sum := value_add (@isFinite_ofNat left (by omega))
    (@isFinite_ofNat right (by omega))
  apply ((signless_ofNat left).add (zero_le_ofNat right)).eq_of_value_eq (signless_ofNat _)
  rw [sum.1, value_ofNat_of_le (by omega), value_ofNat_of_le (by omega), ← Nat.cast_add,
    nearest_natCast exact, value_ofNat_of_le exact]

/-- The negative zero that sums start with leaves no trace in them. -/
theorem negative_zero_add_ofNat {number : ℕ} (exact : number ≤ 2 ^ 53) :
    -0.0 + Float.ofNat number = Float.ofNat number := by
  rcases number.eq_zero_or_pos with rfl | positive
  · decide +kernel
  · have sum := value_add (show (-0.0 : Float).isFinite = true from rfl)
      (@isFinite_ofNat number (by omega))
    rw [value_negative_zero, zero_add, nearest_value] at sum
    apply eq_of_value_eq sum.2 (value_ofNat number).2 sum.1
    rw [sum.1]
    exact (zero_lt_iff.mp (zero_lt_ofNat positive)).2.ne'

theorem foldl_add_ofNat (start : ℕ) (numbers : List ℕ) (exact : start + numbers.sum ≤ 2 ^ 53) :
    (numbers.map Float.ofNat).foldl (· + ·) (Float.ofNat start) =
      Float.ofNat (start + numbers.sum) := by
  induction numbers generalizing start with
  | nil => rfl
  | cons first rest induction =>
      rw [List.sum_cons] at exact ⊢
      rw [List.map_cons, List.foldl_cons, ofNat_add_ofNat (by omega), induction _ (by omega),
        Nat.add_assoc]

/-- A sum of whole numbers is exact as long as it has no more than 53 bits. -/
theorem sum_map_ofNat {numbers : List ℕ} (present : numbers ≠ [])
    (exact : numbers.sum ≤ 2 ^ 53) : sum (numbers.map Float.ofNat) = Float.ofNat numbers.sum := by
  rcases List.exists_cons_of_ne_nil present with ⟨first, rest, rfl⟩
  rw [List.sum_cons] at exact ⊢
  rw [sum, List.map_cons, List.foldl_cons, negative_zero_add_ofNat (by omega),
    foldl_add_ofNat first rest exact]

theorem sum_map_toFloat {numbers : List UInt64} (present : numbers ≠ [])
    (exact : (numbers.map UInt64.toNat).sum ≤ 2 ^ 53) :
    sum (numbers.map UInt64.toFloat) = Float.ofNat (numbers.map UInt64.toNat).sum := by
  have floats : numbers.map UInt64.toFloat = (numbers.map UInt64.toNat).map Float.ofNat := by
    rw [List.map_map]
    exact List.map_congr_left fun number _ => toFloat_eq_ofNat number
  rw [floats, sum_map_ofNat (by simpa using present) exact]

/-! ## Order -/

theorem add_ordered_add {left right leftBound rightBound : Float} (leftLeast : 0 ≤ left)
    (rightLeast : 0 ≤ right) (leftOrder : left ≤ leftBound) (rightOrder : right ≤ rightBound) :
    left + right ≤ leftBound + rightBound := by
  have leftAbove := ordered_trans leftLeast leftOrder
  have rightAbove := ordered_trans rightLeast rightOrder
  have sum := (zero_le_iff.mp (zero_le_add leftLeast rightLeast)).1
  have bound := (zero_le_iff.mp (zero_le_add leftAbove rightAbove)).1
  rw [le_iff_value_le sum bound, value_add_of_zero_le leftLeast rightLeast,
    value_add_of_zero_le leftAbove rightAbove]
  rw [le_iff_value_le (comparable_of_le leftOrder).1 (comparable_of_le leftOrder).2] at leftOrder
  rw [le_iff_value_le (comparable_of_le rightOrder).1 (comparable_of_le rightOrder).2] at rightOrder
  exact nearest_mono (add_le_add leftOrder rightOrder)

/-- Larger numbers have a larger sum. -/
theorem sum_map_ordered {Item : Type} {measure bound : Item → Float} {items : List Item}
    (each : ∀ item ∈ items, 0 ≤ measure item ∧ measure item ≤ bound item) :
    sum (items.map measure) ≤ sum (items.map bound) := by
  have kept : ∀ start limit : Float, 0 ≤ start → start ≤ limit →
      (items.map measure).foldl (· + ·) start ≤ (items.map bound).foldl (· + ·) limit := by
    induction items with
    | nil => exact fun _ _ _ order => order
    | cons first rest induction =>
        rw [List.forall_mem_cons] at each
        intro start limit least order
        exact induction each.2 _ _ (zero_le_add least each.1.1)
          (add_ordered_add least each.1.1 order each.1.2)
  exact kept _ _ (by decide +kernel) (by decide +kernel)

/-- No number from zero on is lost in a sum of such numbers. -/
theorem value_le_sum {numbers : List Float} (least : ∀ number ∈ numbers, 0 ≤ number)
    {number : Float} (member : number ∈ numbers) : value number ≤ value (sum numbers) := by
  have kept : ∀ start : Float, 0 ≤ start →
      value start ≤ value (numbers.foldl (· + ·) start) ∧
        ∀ number ∈ numbers, value number ≤ value (numbers.foldl (· + ·) start) := by
    clear member
    induction numbers with
    | nil => exact fun _ _ => ⟨le_rfl, by simp⟩
    | cons first rest induction =>
        rw [List.forall_mem_cons] at least
        intro start above
        have step := value_le_add above least.1
        have run := induction least.2 _ (zero_le_add above least.1)
        rw [List.foldl_cons, List.forall_mem_cons]
        exact ⟨step.1.trans run.1, step.2.trans run.1, run.2⟩
  exact (kept _ (by decide +kernel)).2 number member

end FrameTiming.Number

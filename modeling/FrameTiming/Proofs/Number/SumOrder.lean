import FrameTiming.Proofs.Number.Single

/-! # Sums in any order

Numbers may be added in any order, two sums at a time, each step rounded. A sum of up to `2 ^ 24`
numbers in single precision is not larger than they are together; beyond that rounding up may add to
it, but never more than the smaller one of two sums.
-/

namespace FrameTiming.Number

open Float.Model (Format UnpackedFloat)

section Formats

variable {format : Format}

/-! ## Rounding a sum -/

theorem nearestEven_le_sub_floor {number : ℚ} (nonnegative : 0 ≤ number) :
    (nearestEven number : ℚ) ≤ 2 * number - ⌊number⌋₊ := by
  have below := Nat.floor_le nonnegative
  have parity : ((⌊number⌋₊ % 2 : ℕ) : ℚ) ≤ 1 := by
    exact_mod_cast Nat.le_of_lt_succ (Nat.mod_lt _ two_pos)
  unfold nearestEven
  dsimp only
  split_ifs <;> push_cast <;> linarith

/-- Below a number, the next multiple of its unit is the next number of the format. -/
theorem le_floor_mul_unit {number total : ℚ} (kept : rounded format number = number)
    (least : 0 ≤ number) (order : number ≤ total) :
    number ≤ ⌊total / 2 ^ unitExponent format total⌋₊ * 2 ^ unitExponent format total := by
  rcases least.eq_or_lt with rfl | positive
  · positivity
  have unit : (0 : ℚ) < 2 ^ unitExponent format total := by positivity
  rcases (unitExponent_mono format positive order).eq_or_lt with same | finer
  · rw [rounded_of_nonneg format least, roundedMagnitude, same] at kept
    rw [← kept]
    refine mul_le_mul_of_nonneg_right ?_ unit.le
    exact_mod_cast Nat.le_floor ((le_div_iff₀ unit).mpr (kept.trans_le order))
  · have bits := two_le_mantissaBits format
    have above := (minExponent_le_unitExponent format number).trans_lt finer
    have full := two_pow_mul_unit_le format (positive.trans_le order) above
    have half : (2 : ℚ) ^ format.mantissaBits * 2 ^ unitExponent format number ≤
        2 ^ (format.mantissaBits - 1) * 2 ^ unitExponent format total := by
      rw [← zpow_natCast, ← zpow_natCast, ← zpow_add₀ (by norm_num), ← zpow_add₀ (by norm_num)]
      exact zpow_le_zpow_right₀ (by norm_num) (by omega)
    refine (lt_two_pow_mul_unit format number).le.trans (half.trans ?_)
    refine mul_le_mul_of_nonneg_right ?_ unit.le
    exact_mod_cast Nat.le_floor ((le_div_iff₀ unit).mpr (by exact_mod_cast full))

/-- What is added to a number of the format counts twice at most. -/
theorem rounded_add_le {first second : ℚ} (kept : rounded format first = first)
    (least : 0 ≤ first) (otherLeast : 0 ≤ second) :
    rounded format (first + second) ≤ first + 2 * second := by
  have unit : (0 : ℚ) < 2 ^ unitExponent format (first + second) := by positivity
  have below := le_floor_mul_unit kept least (le_add_of_nonneg_right otherLeast)
  have nearest := nearestEven_le_sub_floor
    (div_nonneg (add_nonneg least otherLeast) unit.le)
  rw [rounded_of_nonneg format (add_nonneg least otherLeast), roundedMagnitude]
  calc _ ≤ (2 * ((first + second) / 2 ^ unitExponent format (first + second)) -
          ⌊(first + second) / 2 ^ unitExponent format (first + second)⌋₊) *
            2 ^ unitExponent format (first + second) :=
        mul_le_mul_of_nonneg_right nearest unit.le
    _ = 2 * (first + second) - ⌊(first + second) / 2 ^ unitExponent format (first + second)⌋₊ *
          2 ^ unitExponent format (first + second) := by
        rw [sub_mul, mul_assoc, div_mul_cancel₀ _ unit.ne']
    _ ≤ first + 2 * second := by linarith

theorem abs_rounded_add_le_rounded (first second : ℚ) :
    |rounded format (first + second)| ≤ rounded format (|first| + |second|) := by
  rcases abs_le.mp (abs_add_le first second) with ⟨least, most⟩
  have below := rounded_mono format least
  rw [rounded_neg] at below
  exact abs_le.mpr ⟨below, rounded_mono format most⟩

theorem rounded_abs {number : ℚ} (kept : rounded format number = number) :
    rounded format |number| = |number| := by
  rcases abs_cases number with ⟨same, -⟩ | ⟨same, -⟩
  · rw [same, kept]
  · rw [same, rounded_neg, kept]

/-! ## How sums grow -/

/-- How many times as large as each of its addends a sum of so many can get, whatever the order. -/
def growth (format : Format) (count : ℕ) : ℚ :=
  max count (count ^ 2 / 2 ^ format.mantissaBits)

theorem growth_nonneg (format : Format) (count : ℕ) : 0 ≤ growth format count :=
  le_max_of_le_left (Nat.cast_nonneg count)

theorem growth_mono (format : Format) : Monotone (growth format) := by
  intro count other order
  have cast : (count : ℚ) ≤ other := by exact_mod_cast order
  unfold growth
  gcongr

theorem growth_of_le {count : ℕ} (few : count ≤ 2 ^ format.mantissaBits) :
    growth format count = count := by
  have cast : (count : ℚ) ≤ 2 ^ format.mantissaBits := by exact_mod_cast few
  apply max_eq_left
  rw [div_le_iff₀ (by positivity), pow_two]
  exact mul_le_mul_of_nonneg_left cast (by positivity)

theorem growth_of_ge {count : ℕ} (many : 2 ^ format.mantissaBits ≤ count) :
    growth format count = count ^ 2 / 2 ^ format.mantissaBits := by
  have cast : (2 : ℚ) ^ format.mantissaBits ≤ count := by exact_mod_cast many
  apply max_eq_right
  rw [le_div_iff₀ (by positivity), pow_two]
  exact mul_le_mul_of_nonneg_left cast (by positivity)

theorem growth_add_double_le {count other : ℕ} (order : other ≤ count)
    (many : 2 ^ format.mantissaBits ≤ count) :
    growth format count + 2 * growth format other ≤ growth format (count + other) := by
  have orderCast : (other : ℚ) ≤ count := by exact_mod_cast order
  have manyCast : (2 : ℚ) ^ format.mantissaBits ≤ count := by exact_mod_cast many
  have share : growth format other ≤ count * other / 2 ^ format.mantissaBits := by
    rw [growth, max_le_iff, le_div_iff₀ (by positivity), mul_comm (count : ℚ), pow_two]
    constructor
    · exact mul_le_mul_of_nonneg_left manyCast (by positivity)
    · gcongr
  rw [growth_of_ge many, growth_of_ge (many.trans (Nat.le_add_right _ _))]
  calc _ ≤ (count : ℚ) ^ 2 / 2 ^ format.mantissaBits +
        2 * (count * other / 2 ^ format.mantissaBits) := by linarith
    _ ≤ ((count + other : ℕ) : ℚ) ^ 2 / 2 ^ format.mantissaBits := by
        rw [mul_div_assoc', ← add_div]
        gcongr
        push_cast
        nlinarith [sq_nonneg (other : ℚ)]

/-- Counts that overfill the mantissa together are rounded up by one at most. -/
theorem rounded_count_le {count power : ℕ} (above : 2 ^ format.mantissaBits < count)
    (double : count ≤ 2 * 2 ^ format.mantissaBits) :
    rounded format (count * 2 ^ power) ≤ growth format count * 2 ^ power := by
  have exact := representable_mul_two_pow (show (count + 1) / 2 ≤ 2 ^ format.mantissaBits by omega)
    (power + 1)
  have next : (count * 2 ^ power : ℚ) ≤ ((count + 1) / 2 : ℕ) * 2 ^ (power + 1) := by
    rw [pow_succ', ← mul_assoc]
    refine mul_le_mul_of_nonneg_right ?_ (by positivity)
    exact_mod_cast (show count ≤ (count + 1) / 2 * 2 by omega)
  refine (rounded_mono format next).trans ?_
  rw [rounded_representable exact, pow_succ', ← mul_assoc, growth_of_ge above.le]
  refine mul_le_mul_of_nonneg_right ?_ (by positivity)
  rw [le_div_iff₀ (by positivity)]
  have most : (count + 1) / 2 * 2 ≤ count + 1 := by omega
  have square : (count + 1) / 2 * 2 * 2 ^ format.mantissaBits ≤ count ^ 2 := by
    calc _ ≤ (count + 1) * 2 ^ format.mantissaBits := Nat.mul_le_mul_right _ most
      _ ≤ count ^ 2 := by nlinarith
  exact_mod_cast square

/-- Two sums of the format that have grown no more than they can are added to another one. -/
theorem abs_rounded_add_le_growth {first second : ℚ} {count other power : ℕ}
    (kept : rounded format first = first) (otherKept : rounded format second = second)
    (bound : |first| ≤ growth format count * 2 ^ power)
    (otherBound : |second| ≤ growth format other * 2 ^ power) :
    |rounded format (first + second)| ≤ growth format (count + other) * 2 ^ power := by
  wlog order : other ≤ count generalizing first second count other
  · rw [add_comm first, add_comm count]
    exact this otherKept kept otherBound bound (Nat.le_of_not_le order)
  have rounds := @abs_rounded_add_le_rounded format first second
  rcases Nat.lt_or_ge count (2 ^ format.mantissaBits) with less | many
  · -- Both counts are exact, so only their sum can be rounded.
    rw [growth_of_le less.le] at bound
    rw [growth_of_le (order.trans less.le)] at otherBound
    have together : |first| + |second| ≤ (count + other : ℕ) * 2 ^ power := by
      push_cast
      linarith
    refine rounds.trans ((rounded_mono format together).trans ?_)
    rcases Nat.lt_or_ge (2 ^ format.mantissaBits) (count + other) with above | few
    · exact rounded_count_le above (by omega)
    · rw [growth_of_le few, rounded_representable (representable_mul_two_pow few power)]
  · have twice := rounded_add_le (rounded_abs kept) (abs_nonneg first) (abs_nonneg second)
    have grown := growth_add_double_le order many
    have unit : (0 : ℚ) < 2 ^ power := by positivity
    calc |rounded format (first + second)| ≤ |first| + 2 * |second| := rounds.trans twice
      _ ≤ (growth format count + 2 * growth format other) * 2 ^ power := by linarith
      _ ≤ growth format (count + other) * 2 ^ power := mul_le_mul_of_nonneg_right grown unit.le

end Formats

/-! ## Single precision -/

/-- What numbers add up to in some order, two sums at a time. Without numbers that is a zero. -/
inductive Sums : List Float32 → Float32 → Prop
  | none {zero : Float32} (blank : Single zero 0) : Sums [] zero
  | one (number : Float32) : Sums [number] number
  | both {numbers others : List Float32} {total other : Float32} (first : Sums numbers total)
      (second : Sums others other) : Sums (numbers ++ others) (total + other)
  | reordered {numbers others : List Float32} {total : Float32} (same : numbers.Perm others)
      (sums : Sums numbers total) : Sums others total

theorem sums_foldl (numbers : List Float32) : Sums numbers (numbers.foldl (· + ·) 0) := by
  induction numbers using List.reverseRecOn with
  | nil => exact .none single_zero
  | append_singleton numbers number induction =>
      rw [List.foldl_append, List.foldl_cons, List.foldl_nil]
      exact .both induction (.one number)

/-- A sum is finite, in whatever order it was made, where its growth leaves room. -/
theorem Sums.exists_single {numbers : List Float32} {total : Float32} (sums : Sums numbers total)
    {power : ℕ} (small : growth .binary32 numbers.length * 2 ^ power < 2 ^ 128)
    (each : ∀ number ∈ numbers, ∃ height, Single number height ∧ |height| ≤ 2 ^ power) :
    ∃ height, Single total height ∧ |height| ≤ growth .binary32 numbers.length * 2 ^ power := by
  induction sums with
  | none blank =>
      refine ⟨0, blank, ?_⟩
      rw [abs_zero]
      exact mul_nonneg (growth_nonneg _ _) (by positivity)
  | one number =>
      rcases each number (List.mem_singleton_self number) with ⟨height, single, bound⟩
      refine ⟨height, single, ?_⟩
      rwa [List.length_singleton, growth_of_le Nat.one_le_two_pow, Nat.cast_one, one_mul]
  | @both numbers others total other _ _ firstInduction secondInduction =>
      rw [List.length_append] at small ⊢
      rw [List.forall_mem_append] at each
      have part : ∀ count, count ≤ numbers.length + others.length →
          growth .binary32 count * 2 ^ power < 2 ^ 128 := fun count order =>
        (mul_le_mul_of_nonneg_right (growth_mono _ order) (by positivity)).trans_lt small
      rcases firstInduction (part _ (Nat.le_add_right _ _)) each.1 with ⟨first, single, bound⟩
      rcases secondInduction (part _ (Nat.le_add_left _ _)) each.2 with
        ⟨second, otherSingle, otherBound⟩
      have grown := abs_rounded_add_le_growth single.rounded_eq otherSingle.rounded_eq bound
        otherBound
      exact ⟨_, single.add otherSingle (grown.trans_lt small), grown⟩
  | reordered same _ induction =>
      rw [← same.length_eq] at small ⊢
      exact induction small fun number member => each number (same.subset member)

/-- A sum is exact, in whatever order it was made, where all its parts have exact sums. -/
theorem Sums.single_sum {numbers : List Float32} {total : Float32} (sums : Sums numbers total)
    {heights : List ℚ} (each : List.Forall₂ Single numbers heights)
    (kept : ∀ part : List ℚ, part.Subperm heights →
      rounded .binary32 part.sum = part.sum ∧ |part.sum| < 2 ^ 128) :
    Single total heights.sum := by
  induction sums generalizing heights with
  | none blank =>
      rw [List.forall₂_nil_left_iff.mp each]
      exact blank
  | one number =>
      rcases List.forall₂_cons_left_iff.mp each with ⟨height, rest, single, none, rfl⟩
      rw [List.forall₂_nil_left_iff.mp none, List.sum_singleton]
      exact single
  | @both numbers others _ _ _ _ firstInduction secondInduction =>
      have first := List.forall₂_take numbers.length each
      have second := List.forall₂_drop numbers.length each
      rw [List.take_left] at first
      rw [List.drop_left] at second
      have firstTotal := firstInduction first fun part inside =>
        kept part (inside.trans (List.take_sublist _ _).subperm)
      have secondTotal := secondInduction second fun part inside =>
        kept part (inside.trans (List.drop_sublist _ _).subperm)
      have whole := kept heights (List.Subperm.refl heights)
      rw [← List.sum_take_add_sum_drop heights numbers.length] at whole ⊢
      have added := firstTotal.add secondTotal (by rw [whole.1]; exact whole.2)
      rwa [whole.1] at added
  | reordered same _ induction =>
      rcases List.perm_comp_forall₂ same each with ⟨others, otherEach, order⟩
      rw [← order.sum_eq]
      exact induction otherEach fun part inside => kept part (inside.trans order.subperm)

theorem rounded_sum_of_opposite {height : ℚ} (kept : rounded .binary32 height = height)
    (small : |height| < 2 ^ 128) {part : List ℚ} (inside : part.Subperm [-height, height]) :
    rounded .binary32 part.sum = part.sum ∧ |part.sum| < 2 ^ 128 := by
  rcases inside with ⟨sorted, same, sublist⟩
  have parts := List.mem_sublists'.mpr sublist
  simp only [List.sublists'_cons, List.sublists'_nil, List.map_cons, List.map_nil,
    List.cons_append, List.nil_append, List.mem_cons, List.not_mem_nil, or_false] at parts
  rw [← same.sum_eq]
  rcases parts with rfl | rfl | rfl | rfl
  · simp [rounded_zero]
  · rw [List.sum_singleton]
    exact ⟨kept, small⟩
  · rw [List.sum_singleton, rounded_neg, abs_neg, kept]
    exact ⟨rfl, small⟩
  · simp [rounded_zero]

/-! ## Overflow -/

/-- The number is the infinity that stands for what is too large for single precision. -/
def Overflowed (number : Float32) : Prop :=
  number.toModel.unpack = .infinity .positive

theorem overflowed_pack {unpacked : UnpackedFloat} (infinite : unpacked = .infinity .positive) :
    Overflowed (.ofModel (.pack unpacked)) := by
  rw [infinite]
  exact unpack_packedInfinity .positive

/-- Numbers of a format do not change what is infinite. -/
theorem Denotes.infinity_add_sub {unpacked : UnpackedFloat} {height : ℚ}
    (denotes : Denotes .binary32 unpacked height) :
    UnpackedFloat.add .binary32 (.infinity .positive) unpacked = .infinity .positive ∧
      unpacked.add .binary32 (.infinity .positive) = .infinity .positive ∧
      UnpackedFloat.sub .binary32 (.infinity .positive) unpacked = .infinity .positive := by
  cases denotes <;> exact ⟨rfl, rfl, rfl⟩

section Infinite

variable {left right : Float32} {height : ℚ} (infinite : Overflowed left)
include infinite

theorem Overflowed.add (other : Overflowed right) : Overflowed (left + right) := by
  apply overflowed_pack
  rw [Overflowed] at infinite other
  rw [infinite, other]
  rfl

variable (single : Single right height)
include single

theorem Overflowed.add_single : Overflowed (left + right) := by
  apply overflowed_pack
  rw [Overflowed] at infinite
  rw [infinite, (Denotes.infinity_add_sub single).1]

theorem Overflowed.single_add : Overflowed (right + left) := by
  apply overflowed_pack
  rw [Overflowed] at infinite
  rw [infinite, (Denotes.infinity_add_sub single).2.1]

theorem Overflowed.sub_single : Overflowed (left - right) := by
  apply overflowed_pack
  rw [Overflowed] at infinite
  rw [infinite, (Denotes.infinity_add_sub single).2.2]

theorem Overflowed.div_single (positive : 0 < height) : Overflowed (left / right) := by
  apply overflowed_pack
  rw [Overflowed] at infinite
  rw [Single] at single
  rw [infinite]
  generalize right.toModel.unpack = unpacked at single ⊢
  cases single with
  | zero => exact absurd positive (lt_irrefl 0)
  | finite sign mantissa exponent =>
      cases sign with
      | positive => rfl
      | negative =>
          have magnitude : (0 : ℚ) ≤ mantissa * 2 ^ exponent := by positivity
          rw [withSign] at positive
          linarith

end Infinite

/-- A sum of numbers that are all too large is too large, in whatever order it was made. -/
theorem Sums.overflowed {numbers : List Float32} {total : Float32} (sums : Sums numbers total)
    (each : ∀ number ∈ numbers, Overflowed number) :
    Overflowed total ∨ numbers = [] ∧ Single total 0 := by
  induction sums with
  | none blank => exact .inr ⟨rfl, blank⟩
  | one number => exact .inl (each number (List.mem_singleton_self number))
  | both _ _ firstInduction secondInduction =>
      rw [List.forall_mem_append] at each
      rcases firstInduction each.1 with infinite | ⟨rfl, blank⟩ <;>
        rcases secondInduction each.2 with otherInfinite | ⟨rfl, otherBlank⟩
      · exact .inl (infinite.add otherInfinite)
      · exact .inl (infinite.add_single otherBlank)
      · exact .inl (otherInfinite.single_add blank)
      · have none := blank.add otherBlank (by norm_num)
        rw [add_zero, rounded_zero] at none
        exact .inr ⟨rfl, none⟩
  | reordered same _ induction =>
      rcases induction fun number member => each number (same.subset member) with
        infinite | ⟨rfl, blank⟩
      · exact .inl infinite
      · exact .inr ⟨same.nil_eq.symm, blank⟩

/-! ## Means -/

/-- By how many powers of two a mean may exceed the numbers. Up to `2 ^ 23` of them it does not. -/
def slack (count : ℕ) : ℕ :=
  count.log2 - 22

/-- A count that is rounded on its way to single precision keeps above what both formats have. -/
theorem exists_single_count {count : ℕ} (sized : count ≤ 2 ^ 64) :
    ∃ height, Single (narrow (Float.ofNat count)) height ∧
      ∀ factor power : ℕ, factor ≤ 2 ^ 24 → factor * 2 ^ power ≤ count →
        (factor * 2 ^ power : ℚ) ≤ height := by
  have small : |(count : ℚ)| ≤ 2 ^ 64 := by
    rw [abs_of_nonneg (by positivity)]
    exact_mod_cast sized
  rcases value_ofNat count with ⟨same, comparable⟩
  rcases isFinite_of_nearest comparable same ((abs_rounded_le_two_pow .binary64 small).trans_lt
    (two_pow_lt_overflowLimit (by norm_num))) with ⟨finite, rounds⟩
  have bound := (isFinite_of_two_pow comparable same small (by norm_num)).2
  have narrowed := abs_rounded_le_two_pow .binary32 bound
  refine ⟨_, single_narrow finite (narrowed.trans_lt (by norm_num)), ?_⟩
  intro factor power fits within
  have double : Representable .binary64 (factor * 2 ^ power) :=
    representable_mul_two_pow (fits.trans (Nat.pow_le_pow_right two_pos (by decide))) power
  have single : Representable .binary32 (factor * 2 ^ power) := representable_mul_two_pow fits power
  have cast : (factor * 2 ^ power : ℚ) ≤ count := by exact_mod_cast within
  rw [rounds, ← rounded_representable single, ← rounded_representable double]
  exact rounded_mono _ (rounded_mono _ cast)

theorem growth_le_slack {count : ℕ} {height : ℚ} (several : 0 < count)
    (counted : ∀ factor power : ℕ, factor ≤ 2 ^ 24 → factor * 2 ^ power ≤ count →
      (factor * 2 ^ power : ℚ) ≤ height) :
    growth .binary32 count ≤ 2 ^ slack count * height := by
  have bits : Format.binary32.mantissaBits = 24 := rfl
  rcases Nat.lt_or_ge count (2 ^ 24) with few | many
  · have whole := counted count 0 few.le (by omega)
    rw [pow_zero, mul_one] at whole
    rw [growth_of_le (by rw [bits]; exact few.le)]
    exact whole.trans (le_mul_of_one_le_left ((Nat.cast_nonneg _).trans whole)
      (one_le_pow₀ (by norm_num)))
  · have power : (2 : ℚ) ^ count.log2 ≤ height := by
      simpa using counted 1 count.log2 (by norm_num) (by simpa using Nat.log2_self_le several.ne')
    have large : 24 ≤ count.log2 := (Nat.le_log2 several.ne').mpr many
    have below : (count : ℚ) ≤ 2 ^ (count.log2 + 1) := by exact_mod_cast Nat.lt_log2_self.le
    have exponents : 2 ^ (count.log2 + 1) * 2 ^ (count.log2 + 1) =
        (2 ^ slack count * 2 ^ count.log2 * 2 ^ 24 : ℚ) := by
      rw [← pow_add, ← pow_add, ← pow_add, slack]
      congr 1
      omega
    rw [growth_of_ge many, bits, div_le_iff₀ (by positivity), pow_two]
    calc (count : ℚ) * count ≤ 2 ^ (count.log2 + 1) * 2 ^ (count.log2 + 1) := by gcongr
      _ = 2 ^ slack count * 2 ^ count.log2 * 2 ^ 24 := exponents
      _ ≤ 2 ^ slack count * height * 2 ^ 24 := by gcongr

theorem Sums.exists_mean {numbers : List Float32} {total : Float32} (sums : Sums numbers total)
    (present : numbers ≠ []) (sized : numbers.length ≤ 2 ^ 64) {power : ℕ}
    (small : growth .binary32 numbers.length * 2 ^ power < 2 ^ 128)
    (low : power + slack numbers.length < 128)
    (each : ∀ number ∈ numbers, ∃ height, Single number height ∧ |height| ≤ 2 ^ power) :
    ∃ height, Single (total / narrow (Float.ofNat numbers.length)) height ∧
      |height| ≤ 2 ^ (power + slack numbers.length) := by
  have several := List.length_pos_of_ne_nil present
  rcases sums.exists_single small each with ⟨sum, sumSingle, sumBound⟩
  rcases exists_single_count sized with ⟨count, countSingle, counted⟩
  have positive : 0 < count := by
    have one := counted 1 0 (by norm_num) several
    norm_num at one
    linarith
  have quotient : |sum / count| ≤ 2 ^ (power + slack numbers.length) := by
    have grown := growth_le_slack several counted
    rw [abs_div, abs_of_pos positive, div_le_iff₀ positive]
    calc |sum| ≤ growth .binary32 numbers.length * 2 ^ power := sumBound
      _ ≤ 2 ^ slack numbers.length * count * 2 ^ power := by gcongr
      _ = 2 ^ (power + slack numbers.length) * count := by ring
  have bound := abs_rounded_le_two_pow .binary32 quotient
  have limit : (2 : ℚ) ^ (power + slack numbers.length) < 2 ^ 128 :=
    pow_lt_pow_right₀ (by norm_num) low
  exact ⟨_, sumSingle.div countSingle positive.ne' (bound.trans_lt limit), bound⟩

end FrameTiming.Number

import FrameTiming.Proofs.Except
import FrameTiming.Proofs.Percentile
import Mathlib.Data.Finset.Max

/-! # Percentiles of values and of frame durations

Percentiles do not depend on the order of the values, start at the smallest value, grow with their
rank and end at the largest value. A table of frame durations inherits this for ranks 0 to 99.
-/

namespace FrameTiming

open Number

/-! ## Values -/

section Values

variable {values : List Float}

/-- The order of the values does not matter. -/
theorem ofValues_eq_of_perm {permuted : List Float} (permutation : permuted.Perm values)
    (percentile : Float) :
    Percentile.ofValues permuted percentile = Percentile.ofValues values percentile := by
  rw [Percentile.ofValues, Percentile.ofValues, sortAscending_eq_of_perm permutation]

theorem ofNat_le_ofNat {left right : ℕ} (order : left ≤ right) :
    Float.ofNat left ≤ Float.ofNat right := by
  rw [le_iff_value_le (value_ofNat left).2 (value_ofNat right).2, (value_ofNat left).1,
    (value_ofNat right).1]
  exact nearest_mono (by exact_mod_cast order)

theorem ofNat_lt_hundred {number : ℕ} (below : number < percentileCount) :
    Float.ofNat number < 100 := by
  change Float.ofNat number < Float.ofNat 100
  have hundred : (number : ℚ) < (100 : ℕ) := by exact_mod_cast below
  rw [lt_iff_value_lt (value_ofNat number).2 (value_ofNat 100).2,
    Percentile.value_count (by unfold percentileCount at below; omega),
    Percentile.value_count (by norm_num)]
  exact hundred

/-- Percentiles of values start at the smallest, grow with their rank and end at the largest. The
rank of the largest has to be a double. -/
theorem ofValues_ordered (present : values ≠ []) (sized : values.length ≤ 2 ^ 64)
    (finite : ∀ number ∈ values, number.isFinite = true) :
    ∃ smallest ∈ values, ∃ largest ∈ values,
      (∀ number ∈ values, smallest ≤ number ∧ number ≤ largest) ∧
      Percentile.ofValues values 0 = .ok (some smallest) ∧
      (values.length ≤ 2 ^ 53 + 1 → Percentile.ofValues values 100 = .ok (some largest)) ∧
      ∀ lower upper : Float, 0 ≤ lower → lower ≤ upper → upper ≤ 100 →
        (upper < 100 ∨ values.length ≤ 2 ^ 53 + 1) →
        ∃ low high, Percentile.ofValues values lower = .ok (some low) ∧
          Percentile.ofValues values upper = .ok (some high) ∧
          smallest ≤ low ∧ low ≤ high ∧ high ≤ largest := by
  have ascending := Percentile.ascending_sortAscending present sized finite
  have size : (sortAscending values).toArray.size = values.length := by
    rw [List.size_toArray, (sortAscending_perm values).length_eq]
  rcases Percentile.exists_bounds ascending with
    ⟨smallest, smallestMember, largest, largestMember, bounds, first, last⟩
  refine ⟨smallest, smallestMember, largest, largestMember, bounds, ?_, ?_, ?_⟩
  · exact Percentile.ofSorted_zero ascending first
  · intro exact
    rw [← size] at exact
    exact Percentile.ofSorted_hundred ascending exact last
  · intro lower upper least order most reachable
    have lowerComparable := (comparable_of_le order).1
    have upperComparable := (comparable_of_le order).2
    have zero := Percentile.value_ofNat_zero
    have hundred := Percentile.value_ofNat_hundred
    have leastValue := (le_iff_value_le (value_ofNat 0).2 lowerComparable).mp least
    have mostValue := (le_iff_value_le upperComparable (value_ofNat 100).2).mp most
    rw [zero] at leastValue
    rw [hundred] at mostValue
    refine Percentile.ofSorted_ordered ascending first last lowerComparable upperComparable
      leastValue ((le_iff_value_le lowerComparable upperComparable).mp order) mostValue ?_
    rw [size]
    refine reachable.imp_left fun below => ?_
    rwa [← hundred, ← lt_iff_value_lt upperComparable (value_ofNat 100).2]

/-- With `2 ^ 53 + 4` values the last rank is not a double and is rounded up, behind the end. -/
theorem ofValues_hundred_of_beyond (beyond : values.length = 2 ^ 53 + 4) :
    Percentile.ofValues values 100 = .error .rankBeyondEnd := by
  have size : (sortAscending values).toArray.size = 9007199254740996 := by
    rw [List.size_toArray, (sortAscending_perm values).length_eq, beyond]
    norm_num
  have floor : floorNat (Percentile.rank 100 9007199254740996) = 9007199254740996 := by
    decide +kernel
  have behind : (sortAscending values).toArray[9007199254740996]? = none :=
    Array.getElem?_eq_none size.le
  rw [Percentile.ofValues, Percentile.ofSorted, if_neg (by omega)]
  dsimp only
  rw [size, floor, behind]

end Values

/-! ## Tables -/

theorem value_millisecondLength : value millisecondLength = 10 ^ 6 := by
  have unpacked : millisecondLength.toModel.unpack =
      .finite .positive 8589934592000000 (-33) (by decide) := rfl
  rw [value, unpacked]
  norm_num [withSign]

theorem div_millisecondLength_mono {left right : Float} (leftFinite : left.isFinite = true)
    (rightFinite : right.isFinite = true) (order : left ≤ right) :
    left / millisecondLength ≤ right / millisecondLength := by
  have positive : 0 < value millisecondLength := by
    rw [value_millisecondLength]
    norm_num
  rcases value_div leftFinite (show millisecondLength.isFinite = true from rfl) positive.ne' with
    ⟨leftValue, leftComparable⟩
  rcases value_div rightFinite (show millisecondLength.isFinite = true from rfl) positive.ne' with
    ⟨rightValue, rightComparable⟩
  rw [le_iff_value_le (isNaN_of_isFinite leftFinite) (isNaN_of_isFinite rightFinite)] at order
  rw [le_iff_value_le leftComparable rightComparable, leftValue, rightValue]
  exact nearest_mono (div_le_div_of_nonneg_right order positive.le)

theorem isFinite_of_between {low high number : Float} (lowFinite : low.isFinite = true)
    (highFinite : high.isFinite = true) (above : low ≤ number) (below : number ≤ high) :
    number.isFinite = true := by
  have comparable := (comparable_of_le above).2
  have lowComparable := isNaN_of_isFinite lowFinite
  have highComparable := isNaN_of_isFinite highFinite
  rw [isFinite_iff lowComparable, abs_lt] at lowFinite
  rw [isFinite_iff highComparable, abs_lt] at highFinite
  rw [isFinite_iff comparable, abs_lt]
  rw [le_iff_value_le lowComparable comparable] at above
  rw [le_iff_value_le comparable highComparable] at below
  exact ⟨lowFinite.1.trans_le above, below.trans_lt highFinite.2⟩

/-! ## Durations -/

section Durations

variable {durations : List UInt64}

theorem toFloat_le_toFloat {left right : UInt64} (order : left ≤ right) :
    left.toFloat ≤ right.toFloat := by
  rw [le_iff_value_le (value_ofUInt64 left).2 (value_ofUInt64 right).2, (value_ofUInt64 left).1,
    (value_ofUInt64 right).1]
  exact nearest_mono (by exact_mod_cast UInt64.le_iff_toNat_le.mp order)

theorem eq_zero_of_value_toFloat {duration : UInt64} (zero : value duration.toFloat = 0) :
    duration = 0 := by
  rw [(value_ofUInt64 duration).1] at zero
  have tiny := abs_lt_of_nearest_eq_zero zero
  have small : (duration.toNat : ℚ) < 1 := by
    rw [abs_of_nonneg (by positivity)] at tiny
    exact tiny.trans_le (zpow_le_one_of_nonpos₀ (by norm_num) (by norm_num))
  have none : duration.toNat < 1 := by exact_mod_cast small
  exact UInt64.toNat_inj.mp (by simpa using none)

theorem toFloat_eq_of_le_of_le {left right : UInt64} (forwards : left.toFloat ≤ right.toFloat)
    (backwards : right.toFloat ≤ left.toFloat) : left.toFloat = right.toFloat := by
  have leftComparable := (value_ofUInt64 left).2
  have rightComparable := (value_ofUInt64 right).2
  have same := le_antisymm ((le_iff_value_le leftComparable rightComparable).mp forwards)
    ((le_iff_value_le rightComparable leftComparable).mp backwards)
  by_cases zero : value left.toFloat = 0
  · rw [eq_zero_of_value_toFloat zero, eq_zero_of_value_toFloat (same.symm.trans zero)]
  · exact eq_of_value_eq leftComparable rightComparable same zero

/-- A table has an entry for each rank from 0 to 99, taken from the sorted durations. -/
theorem ofDurations_eq_ok (present : durations ≠ [])
    (succeeds : ∀ index < percentileCount, ∃ result,
      Percentile.ofValues (durations.map UInt64.toFloat) (Float.ofNat index) = .ok (some result)) :
    ∃ table, PercentileTable.ofDurations durations = .ok (some table) ∧
      ∀ index < percentileCount, ∃ result,
        Percentile.ofValues (durations.map UInt64.toFloat) (Float.ofNat index) = .ok (some result) ∧
        table.get? index = some (result / millisecondLength) := by
  have filled : (sortAscending (durations.map UInt64.toFloat)).toArray.isEmpty = false := by
    have size : (sortAscending (durations.map UInt64.toFloat)).toArray.size = durations.length := by
      rw [List.size_toArray, (sortAscending_perm _).length_eq, List.length_map]
    simp [Array.isEmpty, size, present]
  have entrySucceeds : ∀ index < percentileCount, ∃ entry, (do
      let value? ← Percentile.ofValues (durations.map UInt64.toFloat) (Float.ofNat index)
      .ok (value?.getD 0 / millisecondLength)) = Except.ok entry := by
    intro index within
    rcases succeeds index within with ⟨result, found⟩
    exact ⟨result / millisecondLength, by rw [found]; rfl⟩
  rcases mapM_range_eq_ok entrySucceeds with ⟨entries, computed, elements⟩
  refine ⟨⟨entries⟩, ?_, ?_⟩
  · unfold PercentileTable.ofDurations
    unfold Percentile.ofValues at computed
    dsimp only
    rw [if_neg (by simpa using filled), computed]
    rfl
  · intro index within
    rcases succeeds index within with ⟨result, found⟩
    refine ⟨result, found, ?_⟩
    have entry := elements index within
    rw [found] at entry
    have same : result / millisecondLength = entries[index] := Except.ok.inj entry
    rw [PercentileTable.get?, same]
    exact Vector.getElem?_eq_getElem within

theorem exists_shortest_longest (present : durations ≠ []) :
    ∃ shortest ∈ durations, ∃ longest ∈ durations,
      ∀ duration ∈ durations, shortest ≤ duration ∧ duration ≤ longest := by
  have nonempty : durations.toFinset.Nonempty := by
    rw [List.toFinset_nonempty_iff]
    exact present
  rcases durations.toFinset.exists_min_image UInt64.toNat nonempty with ⟨shortest, inside, least⟩
  rcases durations.toFinset.exists_max_image UInt64.toNat nonempty with ⟨longest, alsoInside, most⟩
  refine ⟨shortest, List.mem_toFinset.mp inside, longest, List.mem_toFinset.mp alsoInside, ?_⟩
  intro duration member
  rw [UInt64.le_iff_toNat_le, UInt64.le_iff_toNat_le]
  exact ⟨least duration (List.mem_toFinset.mpr member),
    most duration (List.mem_toFinset.mpr member)⟩

/-- The table of some durations starts at the shortest, grows and stays below the longest. -/
theorem ofDurations_ordered (present : durations ≠ []) (sized : durations.length ≤ 2 ^ 64) :
    ∃ shortest ∈ durations, ∃ longest ∈ durations,
      (∀ duration ∈ durations, shortest ≤ duration ∧ duration ≤ longest) ∧
      ∃ table, PercentileTable.ofDurations durations = .ok (some table) ∧
        table.values.toList.length = 100 ∧
        table.get? 0 = some (shortest.toFloat / millisecondLength) ∧
        ∀ lower upper, lower ≤ upper → upper < 100 →
          ∃ low high, table.get? lower = some low ∧ table.get? upper = some high ∧
            low ≤ high ∧ high ≤ longest.toFloat / millisecondLength := by
  have finite : ∀ number ∈ durations.map UInt64.toFloat, number.isFinite = true := by
    intro number member
    rcases List.mem_map.mp member with ⟨duration, -, rfl⟩
    exact isFinite_toFloat duration
  rcases ofValues_ordered (by simpa using present) (by simpa using sized) finite with
    ⟨smallest, smallestMember, largest, largestMember, bounds, zero, -, ordered⟩
  rcases exists_shortest_longest present with
    ⟨shortest, shortestMember, longest, longestMember, durationBounds⟩
  have shortestFloat : smallest = shortest.toFloat := by
    have below := (bounds _ (List.mem_map_of_mem shortestMember)).1
    rcases List.mem_map.mp smallestMember with ⟨duration, member, rfl⟩
    exact toFloat_eq_of_le_of_le below (toFloat_le_toFloat (durationBounds duration member).1)
  have longestFloat : largest = longest.toFloat := by
    have above := (bounds _ (List.mem_map_of_mem longestMember)).2
    rcases List.mem_map.mp largestMember with ⟨duration, member, rfl⟩
    exact toFloat_eq_of_le_of_le (toFloat_le_toFloat (durationBounds duration member).2) above
  have rankOrdered : ∀ lower upper, lower ≤ upper → upper < percentileCount → _ :=
    fun lower upper order below => ordered (Float.ofNat lower) (Float.ofNat upper)
      (ofNat_le_ofNat (Nat.zero_le lower)) (ofNat_le_ofNat order)
      (ofNat_le_ofNat (le_of_lt below)) (.inl (ofNat_lt_hundred below))
  have succeeds : ∀ index < percentileCount, ∃ result,
      Percentile.ofValues (durations.map UInt64.toFloat) (Float.ofNat index) =
        .ok (some result) := by
    intro index within
    rcases rankOrdered index index le_rfl within with ⟨low, -, found, -⟩
    exact ⟨low, found⟩
  rcases ofDurations_eq_ok present succeeds with ⟨table, built, entries⟩
  refine ⟨shortest, shortestMember, longest, longestMember, durationBounds, table, built, ?_, ?_, ?_⟩
  · exact table.values.length_toList
  · rcases entries 0 (by decide) with ⟨result, found, entry⟩
    have same := found.symm.trans zero
    rw [Except.ok.injEq, Option.some.injEq] at same
    rw [entry, same, shortestFloat]
  · intro lower upper order below
    rcases rankOrdered lower upper order below with
      ⟨low, high, lowFound, highFound, aboveSmallest, between, belowLargest⟩
    rcases entries lower (order.trans_lt below) with ⟨lowResult, lowAgain, lowEntry⟩
    rcases entries upper below with ⟨highResult, highAgain, highEntry⟩
    rw [lowFound, Except.ok.injEq, Option.some.injEq] at lowAgain
    rw [highFound, Except.ok.injEq, Option.some.injEq] at highAgain
    subst lowAgain highAgain
    have smallestFinite := finite smallest smallestMember
    have largestFinite := finite largest largestMember
    have lowFinite := isFinite_of_between smallestFinite largestFinite aboveSmallest
      (ordered_trans between belowLargest)
    have highFinite := isFinite_of_between smallestFinite largestFinite
      (ordered_trans aboveSmallest between) belowLargest
    refine ⟨_, _, lowEntry, highEntry, ?_, ?_⟩
    · exact div_millisecondLength_mono lowFinite highFinite between
    · rw [← longestFloat]
      exact div_millisecondLength_mono highFinite largestFinite belowLargest

end Durations

/-- Percentiles exist, do not depend on the order of the values, start at the smallest value, grow
with their rank and end at the largest value. The last rank has to be a double for the hundredth, so
there may be no more than `2 ^ 53 + 1` values. Tables of durations have no such limit. -/
theorem percentiles_ordered :
    (∀ values : List Float, values ≠ [] → values.length ≤ 2 ^ 64 →
      (∀ number ∈ values, number.isFinite = true) →
      ∃ smallest ∈ values, ∃ largest ∈ values,
        (∀ number ∈ values, smallest ≤ number ∧ number ≤ largest) ∧
        Percentile.ofValues values 0 = .ok (some smallest) ∧
        (values.length ≤ 2 ^ 53 + 1 → Percentile.ofValues values 100 = .ok (some largest)) ∧
        ∀ lower upper : Float, 0 ≤ lower → lower ≤ upper → upper ≤ 100 →
          (upper < 100 ∨ values.length ≤ 2 ^ 53 + 1) →
          ∃ low high, Percentile.ofValues values lower = .ok (some low) ∧
            Percentile.ofValues values upper = .ok (some high) ∧
            smallest ≤ low ∧ low ≤ high ∧ high ≤ largest) ∧
    (∀ values permuted : List Float, permuted.Perm values → ∀ percentile,
      Percentile.ofValues permuted percentile = Percentile.ofValues values percentile) ∧
    ∀ durations : List UInt64, durations ≠ [] → durations.length ≤ 2 ^ 64 →
      ∃ shortest ∈ durations, ∃ longest ∈ durations,
        (∀ duration ∈ durations, shortest ≤ duration ∧ duration ≤ longest) ∧
        ∃ table, PercentileTable.ofDurations durations = .ok (some table) ∧
          table.values.toList.length = 100 ∧
          table.get? 0 = some (shortest.toFloat / millisecondLength) ∧
          ∀ lower upper, lower ≤ upper → upper < 100 →
            ∃ low high, table.get? lower = some low ∧ table.get? upper = some high ∧
              low ≤ high ∧ high ≤ longest.toFloat / millisecondLength := by
  refine ⟨?_, ?_, ?_⟩
  · intro values present sized finite
    exact ofValues_ordered present sized finite
  · intro values permuted permutation percentile
    exact ofValues_eq_of_perm permutation percentile
  · intro durations present sized
    exact ofDurations_ordered present sized

theorem percentiles_ordered_of_three :
    (∃ low high, Percentile.ofValues [30, -10, 20] 25 = .ok (some low) ∧
      Percentile.ofValues [30, -10, 20] 100 = .ok (some high) ∧ low ≤ high) ∧
    (Percentile.ofValues [20, 30, -10] 25 = Percentile.ofValues [30, -10, 20] 25) ∧
    ∃ table, PercentileTable.ofDurations [16000000, 4000000, 8000000] = .ok (some table) ∧
      ∃ low high, table.get? 50 = some low ∧ table.get? 95 = some high ∧ low ≤ high := by
  refine ⟨?_, ?_, ?_⟩
  · rcases percentiles_ordered.1 [30, -10, 20] (by decide) (by decide) (by decide +kernel) with
      ⟨smallest, -, largest, -, -, -, -, ordered⟩
    rcases ordered 25 100 (by decide +kernel) (by decide +kernel) (by decide +kernel)
      (.inr (by decide)) with ⟨low, high, lowFound, highFound, -, between, -⟩
    exact ⟨low, high, lowFound, highFound, between⟩
  · exact percentiles_ordered.2.1 [30, -10, 20] [20, 30, -10] (by decide +kernel) 25
  · rcases percentiles_ordered.2.2 [16000000, 4000000, 8000000] (by decide) (by decide) with
      ⟨shortest, -, longest, -, -, table, built, -, -, ordered⟩
    rcases ordered 50 95 (by decide) (by decide) with ⟨low, high, lowEntry, highEntry, between, -⟩
    exact ⟨table, built, low, high, lowEntry, highEntry, between⟩

end FrameTiming

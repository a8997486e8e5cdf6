import FrameTiming.Proofs.Representatives

/-! # Medians

The median of a run is computed from rounded numbers, but nothing in it is rounded until it is
converted to milliseconds: half-way ranks, their weight and half of a sum of two durations are doubles.
That conversion tells half nanoseconds apart, so runs are ranked by their medians themselves.
-/

namespace FrameTiming

open Number

/-! ## The median of durations -/

/-- The median of some durations, in nanoseconds: in ascending order it has as many durations below as
above it. Between two durations it is their mean. -/
inductive IsMedian (durations : List UInt64) : ℚ → Prop
  | middle {below above : List UInt64} {duration : UInt64}
      (sorted : (below ++ duration :: above).Perm durations)
      (ascending : (below ++ duration :: above).Pairwise (· ≤ ·))
      (centred : below.length = above.length) : IsMedian durations duration.toNat
  | between {below above : List UInt64} {lower upper : UInt64}
      (sorted : (below ++ lower :: upper :: above).Perm durations)
      (ascending : (below ++ lower :: upper :: above).Pairwise (· ≤ ·))
      (centred : below.length = above.length) :
      IsMedian durations ((lower.toNat + upper.toNat : ℕ) / 2)

/-- So many durations that half the last rank is a double, none of them longer than a recording. -/
structure Measured (durations : List UInt64) : Prop where
  sized : durations.length ≤ 2 ^ 53 + 1
  short : ∀ duration ∈ durations, duration.toNat ≤ recordingLimit

section Existence

variable {durations : List UInt64}

theorem exists_isMedian (present : durations ≠ []) : ∃ median, IsMedian durations median := by
  let sorted := durations.mergeSort fun left right => decide (left ≤ right)
  have permutation : sorted.Perm durations := List.mergeSort_perm _ _
  have ascending : sorted.Pairwise (· ≤ ·) := List.pairwise_mergeSort' _ _
  have several : 0 < sorted.length := by
    rw [permutation.length_eq]
    exact List.length_pos_of_ne_nil present
  rcases Nat.even_or_odd' sorted.length with ⟨half, even | odd⟩
  · have lower : half - 1 < sorted.length := by omega
    have upper : half < sorted.length := by omega
    have next : half - 1 + 1 = half := by omega
    have split : sorted = sorted.take (half - 1) ++
        sorted[half - 1] :: sorted[half] :: sorted.drop (half + 1) := by
      rw [← List.drop_eq_getElem_cons upper]
      conv_lhs => rw [← List.take_append_drop (half - 1) sorted, List.drop_eq_getElem_cons lower]
      rw [next]
    rw [split] at permutation ascending
    exact ⟨_, .between permutation ascending (by simp; omega)⟩
  · have within : half < sorted.length := by omega
    have split : sorted = sorted.take half ++ sorted[half] :: sorted.drop (half + 1) := by
      rw [← List.drop_eq_getElem_cons within, List.take_append_drop]
    rw [split] at permutation ascending
    exact ⟨_, .middle permutation ascending (by simp; omega)⟩

theorem IsMedian.ne_nil {median : ℚ} (isMedian : IsMedian durations median) : durations ≠ [] := by
  rintro rfl
  cases isMedian with
  | middle sorted | between sorted => simpa using sorted.length_eq

end Existence

/-! ## Halves -/

theorem nearest_half {number : ℕ} (exact : number ≤ 2 ^ 53) :
    nearest ((number : ℚ) / 2) = number / 2 := by
  have within : (number : ℚ) / 2 ≤ overflowLimit := by
    have cast : (number : ℚ) ≤ 2 ^ 53 := by exact_mod_cast exact
    have limit := two_pow_lt_overflowLimit (show 53 < 1024 by norm_num)
    linarith
  rcases exact.lt_or_eq with fits | full
  · apply nearest_representable _ within
    refine ⟨number, -1, fits, by decide, ?_⟩
    rw [zpow_neg_one, div_eq_mul_inv]
  · have whole : (number : ℚ) / 2 = (2 ^ 52 : ℕ) := by
      rw [full]
      norm_num
    rw [whole, nearest_natCast (by norm_num)]

theorem nearest_one_half : nearest (1 / 2) = 1 / 2 := by
  have half := @nearest_half 1 (by norm_num)
  rwa [Nat.cast_one] at half

namespace Percentile

theorem share_fifty : nearest (50 / 100) = 1 / 2 := by
  rw [show (50 / 100 : ℚ) = 1 / 2 by norm_num, nearest_one_half]

/-- The position of the median is exact. -/
theorem position_fifty {count : ℕ} (exact : count ≤ 2 ^ 53 + 1) :
    position 50 count = ((count - 1 : ℕ) : ℚ) / 2 := by
  rw [position, share_fifty, nearest_natCast (by omega), one_div_mul_eq_div,
    nearest_half (by omega)]

/-- Half way between two whole numbers, the clamp has nothing to do. -/
theorem blend_half {low high : ℕ} (order : low ≤ high) (exact : low + high ≤ 2 ^ 53) :
    blend low high (1 / 2) = ((low + high : ℕ) : ℚ) / 2 := by
  have cast : (low : ℚ) ≤ high := by exact_mod_cast order
  have difference : nearest ((high : ℚ) - low) = (high - low : ℕ) := by
    rw [← Nat.cast_sub order, nearest_natCast (by omega)]
  have finite : ((high - low : ℕ) : ℚ) ≠ overflowLimit := by
    have limit := two_pow_lt_overflowLimit (show 53 < 1024 by norm_num)
    have small : ((high - low : ℕ) : ℚ) ≤ 2 ^ 53 := by exact_mod_cast (by omega)
    exact (small.trans_lt limit).ne
  have share : nearest (((high - low : ℕ) : ℚ) * (1 / 2)) = ((high : ℚ) - low) / 2 := by
    rw [mul_one_div, nearest_half (by omega), Nat.cast_sub order]
  have middle : (low : ℚ) + ((high : ℚ) - low) / 2 = ((low + high : ℕ) : ℚ) / 2 := by
    push_cast
    ring
  have reached : reach low high (1 / 2) = ((low + high : ℕ) : ℚ) / 2 := by
    rw [reach, difference, if_neg finite, share, middle, nearest_half exact]
  rw [blend, reached]
  push_cast
  rw [max_eq_left (by linarith), min_eq_left (by linarith)]

theorem interpolated_natCast (heights : ℕ → ℚ) (place : ℕ) :
    interpolated heights place = heights place := by
  rw [interpolated, Nat.floor_natCast, Nat.ceil_natCast, if_pos rfl]

theorem interpolated_half (heights : ℕ → ℚ) (place : ℕ) :
    interpolated heights (place + 1 / 2) = blend (heights place) (heights (place + 1)) (1 / 2) := by
  have floor : ⌊(place + 1 / 2 : ℚ)⌋₊ = place := by
    rw [Nat.floor_eq_iff (by positivity)]
    constructor <;> linarith
  have ceil : ⌈(place + 1 / 2 : ℚ)⌉₊ = place + 1 := by
    rw [Nat.ceil_eq_iff (by omega), Nat.add_sub_cancel]
    push_cast
    constructor <;> linarith
  rw [interpolated, floor, ceil, if_neg (Nat.succ_ne_self place).symm, add_sub_cancel_left,
    nearest_one_half]

end Percentile

/-! ## Sorted durations -/

section Sorted

variable {durations sorted : List UInt64}

theorem sortAscending_map_toFloat (permutation : sorted.Perm durations)
    (ascending : sorted.Pairwise (· ≤ ·)) :
    sortAscending (durations.map UInt64.toFloat) = sorted.map UInt64.toFloat := by
  rw [← sortAscending_eq_of_perm (permutation.map UInt64.toFloat), sortAscending]
  apply List.mergeSort_of_pairwise
  rw [List.pairwise_map]
  refine ascending.imp fun order => ?_
  exact ((signless_toFloat _).totalLe_iff (signless_toFloat _)).mpr (toFloat_le_toFloat order)

/-- A duration within a recording is converted exactly. -/
theorem value_toFloat_of_le {duration : UInt64} (short : duration.toNat ≤ recordingLimit) :
    value duration.toFloat = duration.toNat := by
  have limit : recordingLimit ≤ 2 ^ 53 := by decide
  rw [(value_ofUInt64 duration).1, nearest_natCast (short.trans limit)]

theorem valueAt_map_toFloat (short : ∀ duration ∈ sorted, duration.toNat ≤ recordingLimit)
    {place : ℕ} {duration : UInt64} (found : sorted[place]? = some duration) :
    Percentile.valueAt (sorted.map UInt64.toFloat).toArray place = duration.toNat := by
  rcases List.getElem?_eq_some_iff.mp found with ⟨within, rfl⟩
  rw [Percentile.valueAt_eq (by simpa using within)]
  simpa using value_toFloat_of_le (short _ (List.getElem_mem within))

end Sorted

/-! ## The computed median -/

section Computed

variable {durations : List UInt64} {median : ℚ}

/-- The number between the sorted durations is the median. -/
theorem IsMedian.interpolated_eq (isMedian : IsMedian durations median)
    (measured : Measured durations) :
    Percentile.interpolated
        (Percentile.valueAt (sortAscending (durations.map UInt64.toFloat)).toArray)
        (Percentile.position 50 durations.length) = median := by
  have limit : recordingLimit ≤ 2 ^ 52 := by decide
  rw [Percentile.position_fifty measured.sized]
  cases isMedian with
  | @middle below above duration sorted ascending centred =>
      have short : ∀ one ∈ below ++ duration :: above, one.toNat ≤ recordingLimit :=
        fun one member => measured.short one (sorted.mem_iff.mp member)
      have count : durations.length - 1 = 2 * below.length := by
        rw [← sorted.length_eq, List.length_append, List.length_cons]
        omega
      have place : ((2 * below.length : ℕ) : ℚ) / 2 = below.length := by
        push_cast
        ring
      rw [sortAscending_map_toFloat sorted ascending, count, place,
        Percentile.interpolated_natCast]
      exact valueAt_map_toFloat short (by simp)
  | @between below above lower upper sorted ascending centred =>
      have short : ∀ one ∈ below ++ lower :: upper :: above, one.toNat ≤ recordingLimit :=
        fun one member => measured.short one (sorted.mem_iff.mp member)
      have count : durations.length - 1 = 2 * below.length + 1 := by
        rw [← sorted.length_eq, List.length_append, List.length_cons, List.length_cons]
        omega
      have place : ((2 * below.length + 1 : ℕ) : ℚ) / 2 = below.length + 1 / 2 := by
        push_cast
        ring
      have order : lower ≤ upper := by
        have inOrder := (List.pairwise_append.mp ascending).2.1
        exact (List.pairwise_cons.mp inOrder).1 upper (by simp)
      have lowerShort := short lower (by simp)
      have upperShort := short upper (by simp)
      rw [sortAscending_map_toFloat sorted ascending, count, place, Percentile.interpolated_half,
        valueAt_map_toFloat short (show _ = some lower by simp),
        valueAt_map_toFloat short (show _ = some upper by simp),
        Percentile.blend_half (UInt64.le_iff_toNat_le.mp order) (by omega)]

theorem IsMedian.nonneg (isMedian : IsMedian durations median) : 0 ≤ median := by
  cases isMedian <;> positivity

theorem IsMedian.exists_halves (isMedian : IsMedian durations median) :
    ∃ halves : ℕ, median = halves / 2 := by
  cases isMedian with
  | @middle _ _ duration =>
      refine ⟨2 * duration.toNat, ?_⟩
      push_cast
      ring
  | @between _ _ lower upper => exact ⟨lower.toNat + upper.toNat, rfl⟩

theorem IsMedian.le_limit (isMedian : IsMedian durations median) (measured : Measured durations) :
    median ≤ recordingLimit := by
  cases isMedian with
  | middle sorted => exact_mod_cast measured.short _ (sorted.mem_iff.mp (by simp))
  | @between _ _ lower upper sorted =>
      have lowerShort := measured.short lower (sorted.mem_iff.mp (by simp))
      have upperShort := measured.short upper (sorted.mem_iff.mp (by simp))
      have both : ((lower.toNat + upper.toNat : ℕ) : ℚ) ≤ (2 * recordingLimit : ℕ) := by
        exact_mod_cast (by omega)
      push_cast at both ⊢
      linarith

/-- The 50th percentile of some durations is their median. -/
theorem IsMedian.ofValues_fifty (isMedian : IsMedian durations median)
    (measured : Measured durations) :
    ∃ middle, Percentile.ofValues (durations.map UInt64.toFloat) (Float.ofNat 50) =
        .ok (some middle) ∧ middle.isNaN = false ∧ value middle = median := by
  have fifty : value (Float.ofNat 50) = 50 := Percentile.value_count (by norm_num)
  have size : (sortAscending (durations.map UInt64.toFloat)).toArray.size = durations.length := by
    rw [List.size_toArray, (sortAscending_perm _).length_eq, List.length_map]
  have finite : ∀ number ∈ durations.map UInt64.toFloat, number.isFinite = true := by
    intro number member
    rcases List.mem_map.mp member with ⟨duration, -, rfl⟩
    exact isFinite_toFloat duration
  have ascending := Percentile.ascending_sortAscending (by simpa using isMedian.ne_nil)
    (by rw [List.length_map]; exact measured.sized.trans (by norm_num)) finite
  rcases Percentile.ofSorted_spec ascending (value_ofNat 50).2 (by rw [fifty]; norm_num)
    (by rw [fifty]; norm_num) (.inl (by rw [fifty]; norm_num)) with
    ⟨middle, computed, comparable, same, -⟩
  rw [fifty, size, isMedian.interpolated_eq measured] at same
  exact ⟨middle, computed, comparable, same⟩

/-- The median in a table is the exact one, converted once. -/
theorem IsMedian.exists_table (isMedian : IsMedian durations median)
    (measured : Measured durations) :
    ∃ table middle, PercentileTable.ofDurations durations = .ok (some table) ∧
      value middle = median ∧ middle.isFinite = true ∧ table.median = middle / millisecondLength ∧
      value table.median = nearest (median / 10 ^ 6) := by
  have present := isMedian.ne_nil
  rcases isMedian.ofValues_fifty measured with ⟨middle, computed, comparable, same⟩
  rcases ofDurations_eq_ok present fun _ => ofValues_toFloat_succeeds present with
    ⟨table, built, entries⟩
  rcases entries 50 (by decide) with ⟨result, found, entry⟩
  rw [computed, Except.ok.injEq, Option.some.injEq] at found
  subst found
  have finite : middle.isFinite = true := by
    apply isFinite_of_lt_word comparable
    · rw [same]
      exact isMedian.nonneg
    · rw [same]
      exact (isMedian.le_limit measured).trans_lt (by norm_num [recordingLimit, secondLength])
  have there : table.get? 50 = some table.median := Vector.getElem?_eq_getElem (by decide)
  rw [there, Option.some.injEq] at entry
  have length : millisecondLength.isFinite = true := rfl
  have positive := (zero_lt_iff.mp zero_lt_millisecondLength).2
  have quotient := (value_div finite length positive.ne').1
  rw [same, value_millisecondLength] at quotient
  exact ⟨table, middle, built, same, finite, entry, by rw [entry, quotient]⟩

end Computed

/-! ## More durations than that -/

/-- One more than there may be, and the last rank is no double. -/
theorem Percentile.position_fifty_of_beyond : position 50 (2 ^ 53 + 2) = (2 ^ 52 : ℕ) := by
  rw [position, share_fifty, show 2 ^ 53 + 2 - 1 = 2 ^ 53 + 1 by norm_num, nearest_overfull,
    one_div_mul_eq_div, nearest_half le_rfl]
  norm_num

/-- Where half the last rank is no double, the two durations in the middle do not count the same. -/
theorem ofValues_fifty_of_beyond {count : ℕ} (beyond : count = 2 ^ 52) :
    let durations := List.replicate (count + 1) (0 : UInt64) ++ List.replicate (count + 1) 1
    IsMedian durations (1 / 2) ∧
      Percentile.ofValues (durations.map UInt64.toFloat) (Float.ofNat 50) =
        .ok (some (UInt64.toFloat 0)) := by
  intro durations
  have ascending : durations.Pairwise (· ≤ ·) := by
    rw [List.pairwise_append]
    refine ⟨List.pairwise_replicate_of_refl, List.pairwise_replicate_of_refl, ?_⟩
    intro left leftInside right rightInside
    rw [List.eq_of_mem_replicate leftInside, List.eq_of_mem_replicate rightInside]
    decide
  have split : durations = List.replicate count 0 ++ 0 :: 1 :: List.replicate count 1 := by
    dsimp only [durations]
    rw [List.replicate_succ', List.append_assoc]
    rfl
  have length : durations.length = 2 ^ 53 + 2 := by
    rw [split]
    simp only [List.length_append, List.length_cons, List.length_replicate]
    omega
  constructor
  · have half : (1 / 2 : ℚ) = ((0 : UInt64).toNat + (1 : UInt64).toNat : ℕ) / 2 := by
      rw [show (0 : UInt64).toNat + (1 : UInt64).toNat = 1 from rfl, Nat.cast_one]
    rw [half]
    refine .between (.of_eq split.symm) (split ▸ ascending) ?_
    rw [List.length_replicate, List.length_replicate]
  · have fifty : value (Float.ofNat 50) = 50 := Percentile.value_count (by norm_num)
    have sorted : (sortAscending (durations.map UInt64.toFloat)).toArray =
        (durations.map UInt64.toFloat).toArray := by
      rw [sortAscending_map_toFloat (.refl _) ascending]
    have ordered := @Percentile.ascending_sortAscending (durations.map UInt64.toFloat)
      (by simp [split]) (by rw [List.length_map, length]; norm_num) fun number member => by
        rcases List.mem_map.mp member with ⟨duration, -, rfl⟩
        exact isFinite_toFloat duration
    have found : (durations.map UInt64.toFloat).toArray[2 ^ 52]? = some (UInt64.toFloat 0) := by
      rw [← beyond, List.getElem?_toArray, List.getElem?_map, split]
      simp
    rw [Percentile.ofValues, sorted]
    rw [sorted] at ordered
    refine Percentile.ofSorted_of_position ordered (value_ofNat 50).2 (by rw [fifty]; norm_num)
      (by rw [fifty]; norm_num) (.inl (by rw [fifty]; norm_num)) ?_ found
    rw [fifty, List.size_toArray, List.length_map, length, Percentile.position_fifty_of_beyond]

/-! ## Ranking -/

theorem IsMedian.unique {durations : List UInt64} {median other : ℚ}
    (isMedian : IsMedian durations median) (isOther : IsMedian durations other) :
    other = median := by
  cases isMedian with
  | @middle below above duration sorted ascending centred =>
      cases isOther with
      | @middle otherBelow otherAbove otherDuration otherSorted otherAscending otherCentred =>
          have same := (sorted.trans otherSorted.symm).eq_of_pairwise' ascending otherAscending
          have counts := congrArg List.length same
          simp only [List.length_append, List.length_cons] at counts
          have centre := (List.append_inj same (by omega)).2
          cases centre
          rfl
      | between otherSorted _ otherCentred =>
          have counts := sorted.length_eq.trans otherSorted.length_eq.symm
          simp only [List.length_append, List.length_cons] at counts
          omega
  | @between below above lower upper sorted ascending centred =>
      cases isOther with
      | middle otherSorted _ otherCentred =>
          have counts := sorted.length_eq.trans otherSorted.length_eq.symm
          simp only [List.length_append, List.length_cons] at counts
          omega
      | between otherSorted otherAscending otherCentred =>
          have same := (sorted.trans otherSorted.symm).eq_of_pairwise' ascending otherAscending
          have counts := congrArg List.length same
          simp only [List.length_append, List.length_cons] at counts
          have centre := (List.append_inj same (by omega)).2
          cases centre
          rfl

/-- Conversion to milliseconds tells half nanoseconds apart. -/
theorem nearest_milliseconds_lt {halves other : ℕ} (less : halves < other)
    (short : other ≤ 2 * recordingLimit) :
    nearest ((halves : ℚ) / 2 / 10 ^ 6) < nearest ((other : ℚ) / 2 / 10 ^ 6) := by
  have apart : (halves : ℚ) + 1 ≤ other := by exact_mod_cast less
  have limit : (other : ℚ) ≤ 2 ^ 48 := by
    exact_mod_cast short.trans (show 2 * recordingLimit ≤ 2 ^ 48 by decide)
  have least : (0 : ℚ) ≤ halves := by positivity
  have lower := (nearest_spec_of_word (show 0 ≤ (halves : ℚ) / 2 / 10 ^ 6 by positivity)
    (by linarith)).2
  have upper := (nearest_spec_of_word (show 0 ≤ (other : ℚ) / 2 / 10 ^ 6 by positivity)
    (by linarith)).2
  have tiny : (2 : ℚ) ^ (-1075 : ℤ) ≤ 2 ^ (-60 : ℤ) :=
    zpow_le_zpow_right₀ (by norm_num) (by norm_num)
  generalize (2 : ℚ) ^ (-1075 : ℤ) = finest at tiny lower upper
  have above := (abs_le.mp lower).2
  have below := (abs_le.mp upper).1
  norm_num at tiny above below
  linarith

theorem IsMedian.nearest_milliseconds_le_iff {durations others : List UInt64} {median other : ℚ}
    (isMedian : IsMedian durations median) (measured : Measured durations)
    (isOther : IsMedian others other) :
    nearest (median / 10 ^ 6) ≤ nearest (other / 10 ^ 6) ↔ median ≤ other := by
  constructor
  · intro order
    by_contra greater
    have limit := isMedian.le_limit measured
    rcases isMedian.exists_halves with ⟨halves, rfl⟩
    rcases isOther.exists_halves with ⟨otherHalves, rfl⟩
    have less : (otherHalves : ℚ) < halves := by linarith
    have twice : (halves : ℚ) ≤ (2 * recordingLimit : ℕ) := by
      push_cast
      linarith
    exact absurd order (not_le.mpr
      (nearest_milliseconds_lt (by exact_mod_cast less) (by exact_mod_cast twice)))
  · intro order
    exact nearest_mono (div_le_div_of_nonneg_right order (by norm_num))

/-- The exact median of the durations that a run is about. -/
inductive Run.HasMedian (run : Run) (median : ℚ) : Prop
  | intro {config : Config} {name : String} {source : Path} {recorded : List Frame}
      (analysed : Run.ofFrames config name source recorded = .ok run)
      (measured : Measured (Run.durationsIn config.stateFilter? run.frames))
      (isMedian : IsMedian (Run.durationsIn config.stateFilter? run.frames) median)

namespace Run.HasMedian

variable {run other : Run} {median otherMedian : ℚ}

theorem median_spec (hasMedian : run.HasMedian median) :
    Signless run.stats.median ∧ value run.stats.median = nearest (median / 10 ^ 6) := by
  rcases hasMedian with ⟨analysed, measured, isMedian⟩
  rcases Stats.ofDurations_eq_ok_iff.mp (Run.ofDurations_durationsIn analysed) with
    ⟨table, built, stats⟩
  rw [stats]
  rcases isMedian.exists_table measured with ⟨same, middle, alsoBuilt, -, -, -, converted⟩
  rw [built, Except.ok.injEq, Option.some.injEq] at alsoBuilt
  subst alsoBuilt
  rcases entry_of_ofDurations (measured.sized.trans (by norm_num)) built
    (show 50 < percentileCount by decide) with ⟨entry, found, signless, -⟩
  have there : table.get? 50 = some table.median := Vector.getElem?_eq_getElem (by decide)
  rw [there, Option.some.injEq] at found
  rw [← found] at signless
  exact ⟨signless, converted⟩

/-- Runs are compared by their exact medians. -/
theorem median_le_iff (hasMedian : run.HasMedian median) (otherHas : other.HasMedian otherMedian) :
    run.stats.median ≤ other.stats.median ↔ median ≤ otherMedian := by
  rcases hasMedian.median_spec with ⟨signless, same⟩
  rcases otherHas.median_spec with ⟨otherSignless, otherSame⟩
  rw [le_iff_value_le (zero_le_iff.mp signless.zero_le).1 (zero_le_iff.mp otherSignless.zero_le).1,
    same, otherSame]
  rcases hasMedian with ⟨-, measured, isMedian⟩
  rcases otherHas with ⟨-, -, isOther⟩
  exact isMedian.nearest_milliseconds_le_iff measured isOther

end Run.HasMedian

/-- The exact median of a run, told from what was recorded. -/
theorem Run.hasMedian_of_made {config : Config} {name : String} {source : Path}
    {recorded : List Frame} {run : Run} {durations : List UInt64} {median : ℚ}
    (analysed : Run.ofFrames config name source recorded = .ok run)
    (kept : durationsIn config.stateFilter?
      (Window.apply config.dropFront? config.durationCap? recorded) = durations)
    (measured : Measured durations) (isMedian : IsMedian durations median) :
    run.HasMedian median := by
  rw [← kept, ← frames_eq_apply analysed] at measured isMedian
  exact .intro analysed measured isMedian

/-- A run of an accepted log has an exact median. -/
theorem Run.exists_hasMedian {log source : Path} {bytes : List UInt8} {config : Config}
    {recorded : List Frame} {name : String} {run : Run}
    (accepted : FrameLog.parse config.logFormat log bytes = .ok recorded)
    (sized : recorded.length ≤ 2 ^ 53 + 1)
    (analysed : Run.ofFrames config name source recorded = .ok run) :
    ∃ median, run.HasMedian median := by
  have measured : Measured (durationsIn config.stateFilter? run.frames) :=
    ⟨(length_durationsIn_le analysed).trans sized,
      fun _ member => toNat_le_limit_of_logged accepted analysed member⟩
  have present := (Stats.total_of_ofDurations (ofDurations_durationsIn analysed)).2
  rcases exists_isMedian present with ⟨median, isMedian⟩
  exact ⟨median, .intro analysed measured isMedian⟩

/-- The median of some durations is computed exactly, in half nanoseconds, and converted once. So runs
are compared by their exact medians, which all runs of accepted logs have, and a ranking lists them by
these: where the exact medians tie, and only there, in the order of the dataset. -/
theorem median_exact :
    (∀ durations : List UInt64, durations ≠ [] → Measured durations →
      ∃ median table middle, (IsMedian durations median ∧
          ∀ other, IsMedian durations other → other = median) ∧
        (∃ halves : ℕ, median = halves / 2) ∧
        PercentileTable.ofDurations durations = .ok (some table) ∧
        table.get? 50 = some table.median ∧
        value middle = median ∧ middle.isFinite = true ∧
        table.median = middle / millisecondLength ∧
        value table.median = nearest (median / 10 ^ 6)) ∧
    (∀ config log bytes recorded name source run,
      FrameLog.parse config.logFormat log bytes = .ok recorded → recorded.length ≤ 2 ^ 53 + 1 →
        Run.ofFrames config name source recorded = .ok run → ∃ median, run.HasMedian median) ∧
    (∀ (run other : Run) median otherMedian, run.HasMedian median → other.HasMedian otherMedian →
      (run.stats.median ≤ other.stats.median ↔ median ≤ otherMedian)) ∧
    ∀ config metrics dataset summary, Summary.ofDataset config metrics dataset = .ok summary →
      summary.ranked.Pairwise fun first second => ∀ run other median otherMedian,
        first.Names dataset run → second.Names dataset other →
          run.HasMedian median → other.HasMedian otherMedian →
            median < otherMedian ∨ median = otherMedian ∧ first.index < second.index := by
  refine ⟨?_, ?_, ?_, ?_⟩
  · intro durations present measured
    rcases exists_isMedian present with ⟨median, isMedian⟩
    rcases isMedian.exists_table measured with
      ⟨table, middle, built, same, finite, converted, rounded⟩
    exact ⟨median, table, middle, ⟨isMedian, fun other => isMedian.unique⟩, isMedian.exists_halves,
      built, Vector.getElem?_eq_getElem (by decide), same, finite, converted, rounded⟩
  · intro config log bytes recorded name source run accepted sized analysed
    exact Run.exists_hasMedian accepted sized analysed
  · intro run other median otherMedian hasMedian otherHas
    exact hasMedian.median_le_iff otherHas
  · intro config metrics dataset summary made
    rw [(Summary.ofDataset_eq_ok_iff.mp made).ranked]
    refine (pairwise_rankRefs dataset.runs).imp ?_
    intro first second inOrder run other median otherMedian names otherNames hasMedian otherHas
    rw [names.median, otherNames.median,
      hasMedian.median_spec.1.totalLe_iff otherHas.median_spec.1,
      otherHas.median_spec.1.totalLe_iff hasMedian.median_spec.1,
      hasMedian.median_le_iff otherHas, otherHas.median_le_iff hasMedian] at inOrder
    rcases inOrder.1.lt_or_eq with less | same
    · exact .inl less
    · exact .inr ⟨same, inOrder.2 same.ge⟩

private def evenRecording : List Frame :=
  [⟨4, none⟩, ⟨3, none⟩]

private def oddRecording : List Frame :=
  [⟨5, none⟩, ⟨4, none⟩, ⟨3, none⟩]

/-- Runs whose medians are half a nanosecond apart, in the wrong order in their dataset. -/
theorem median_exact_of_neighbours :
    (∃ table, PercentileTable.ofDurations [9000001, 3, 8000000, 5] = .ok (some table) ∧
      value table.median = nearest ((5 + 8000000 : ℕ) / 2 / 10 ^ 6)) ∧
    ∃ slower faster, Run.ofFrames {} "b" ⟨"/b.log"⟩ oddRecording = .ok slower ∧
      Run.ofFrames {} "a" ⟨"/a.log"⟩ evenRecording = .ok faster ∧
      slower.HasMedian 4 ∧ faster.HasMedian ((3 + 4 : ℕ) / 2) ∧
      ¬slower.stats.median ≤ faster.stats.median ∧
      ∃ summary, Summary.ofDataset {} Metric.standard ⟨"game", [slower, faster], []⟩ = .ok summary ∧
        summary.ranked.Pairwise fun first second =>
          first.Names ⟨"game", [slower, faster], []⟩ slower →
            ¬second.Names ⟨"game", [slower, faster], []⟩ faster := by
  constructor
  · have measured : Measured [9000001, 3, 8000000, 5] :=
      ⟨by decide, by simp [recordingLimit, secondLength]⟩
    have sorted : ([3] ++ (5 : UInt64) :: 8000000 :: [9000001]).Perm [9000001, 3, 8000000, 5] := by
      decide
    have isMedian := IsMedian.between sorted (by decide) rfl
    rcases median_exact.1 [9000001, 3, 8000000, 5] (by decide) measured with
      ⟨median, table, middle, ⟨-, unique⟩, -, built, -, -, -, -, rounded⟩
    exact ⟨table, built, by rw [rounded, ← unique _ isMedian]; rfl⟩
  · rcases (@Run.ofFrames_succeeds_iff {} "b" ⟨"/b.log"⟩ oddRecording).mpr (by decide) with
      ⟨slower, slowerMade⟩
    rcases (@Run.ofFrames_succeeds_iff {} "a" ⟨"/a.log"⟩ evenRecording).mpr (by decide) with
      ⟨faster, fasterMade⟩
    have slowerMedian : slower.HasMedian 4 := by
      have sorted : ([3] ++ (4 : UInt64) :: [5]).Perm [5, 4, 3] := by decide
      have measured : Measured [5, 4, 3] := ⟨by decide, by simp [recordingLimit, secondLength]⟩
      exact Run.hasMedian_of_made slowerMade rfl measured (.middle sorted (by decide) rfl)
    have fasterMedian : faster.HasMedian ((3 + 4 : ℕ) / 2) := by
      have sorted : ([] ++ (3 : UInt64) :: 4 :: []).Perm [4, 3] := by decide
      have measured : Measured [4, 3] := ⟨by decide, by simp [recordingLimit, secondLength]⟩
      exact Run.hasMedian_of_made fasterMade rfl measured (.between sorted (by decide) rfl)
    have recorded : Dataset.Recorded ⟨"game", [slower, faster], []⟩ := by
      refine ⟨by simp, ?_⟩
      intro run member
      rcases List.mem_cons.mp member with rfl | member
      · exact ⟨_, _, _, _, by decide, slowerMade⟩
      · rw [List.mem_singleton.mp member]
        exact ⟨_, _, _, _, by decide, fasterMade⟩
    rcases Summary.exists_of_recorded recorded (by simp) Metric.answers_standard {} with
      ⟨summary, made⟩
    refine ⟨slower, faster, slowerMade, fasterMade, slowerMedian, fasterMedian, ?_, summary, made, ?_⟩
    · rw [median_exact.2.2.1 slower faster _ _ slowerMedian fasterMedian]
      norm_num
    · refine (median_exact.2.2.2 _ _ _ _ made).imp ?_
      intro first second ordered names otherNames
      rcases ordered slower faster _ _ names otherNames slowerMedian fasterMedian with less | same
      · norm_num at less
      · norm_num at same

end FrameTiming

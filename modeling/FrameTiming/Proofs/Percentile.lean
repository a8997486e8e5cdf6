import FrameTiming.Percentile
import FrameTiming.Proofs.Number.Whole

/-! # Percentiles of sorted values

The rank of a percentile grows with it and stays within the values. Between two values the weight
grows with the rank, and what rounding would carry past one of them is kept at it, so percentiles are
ordered and lie between the smallest and the largest value.
-/

namespace FrameTiming.Percentile

open Number

/-! ## Between two values -/

theorem clamp_eq_ok {low high number : Float} (lowComparable : low.isNaN = false)
    (highComparable : high.isNaN = false) (comparable : number.isNaN = false)
    (order : value low ≤ value high) :
    ∃ result, clamp low high number = .ok result ∧ result.isNaN = false ∧
      value result = min (max (value number) (value low)) (value high) := by
  have raise : ∃ raised, (if number < low then low else number) = raised ∧
      raised.isNaN = false ∧ value raised = max (value number) (value low) := by
    by_cases below : number < low
    · have less := (lt_iff_value_lt comparable lowComparable).mp below
      exact ⟨low, if_pos below, lowComparable, (max_eq_right less.le).symm⟩
    · have notLess := mt (lt_iff_value_lt comparable lowComparable).mpr below
      exact ⟨number, if_neg below, comparable, (max_eq_left (not_lt.mp notLess)).symm⟩
  rcases raise with ⟨raised, same, raisedComparable, raisedValue⟩
  rw [clamp, if_pos ((le_iff_value_le lowComparable highComparable).mpr order)]
  dsimp only
  rw [same, ← raisedValue]
  by_cases above : high < raised
  · have less := (lt_iff_value_lt highComparable raisedComparable).mp above
    rw [if_pos above]
    exact ⟨high, rfl, highComparable, (min_eq_right less.le).symm⟩
  · have notLess := mt (lt_iff_value_lt highComparable raisedComparable).mpr above
    rw [if_neg above]
    exact ⟨raised, rfl, raisedComparable, (min_eq_left (not_lt.mp notLess)).symm⟩

/-- The number at a weight between two numbers, before it is kept between them. A difference that is
too large takes the number all the way up. -/
def reach (low high weight : ℚ) : ℚ :=
  if nearest (high - low) = overflowLimit then overflowLimit
  else nearest (low + nearest (nearest (high - low) * weight))

/-- The number at a weight between two numbers. -/
def blend (low high weight : ℚ) : ℚ :=
  min (max (reach low high weight) low) high

theorem value_reach {low high weight : Float} (lowFinite : low.isFinite = true)
    (highFinite : high.isFinite = true) (weightFinite : weight.isFinite = true)
    (order : value low ≤ value high) (positive : 0 < value weight) (most : value weight ≤ 1) :
    value (low + (high - low) * weight) = reach (value low) (value high) (value weight) ∧
      (low + (high - low) * weight).isNaN = false := by
  rcases value_sub highFinite lowFinite with ⟨difference, differenceComparable⟩
  have nonnegative : 0 ≤ nearest (value high - value low) := nearest_nonneg (by linarith)
  unfold reach
  by_cases infinite : nearest (value high - value low) = overflowLimit
  · rw [if_pos infinite]
    rcases value_mul_of_infinite differenceComparable (difference.trans infinite) weightFinite
      positive with ⟨product, productComparable⟩
    exact value_add_of_infinite lowFinite productComparable product
  · rw [if_neg infinite]
    have bounded := abs_nearest_le (value high - value low)
    rw [abs_of_nonneg nonnegative] at bounded
    have below := lt_of_le_of_ne bounded infinite
    have differenceFinite : (high - low).isFinite = true := by
      rwa [isFinite_iff differenceComparable, difference, abs_of_nonneg nonnegative]
    rcases value_mul differenceFinite weightFinite with ⟨product, productComparable⟩
    have share : value (high - low) * value weight ≤ value (high - low) :=
      mul_le_of_le_one_right (by rwa [difference]) most
    have productFinite : ((high - low) * weight).isFinite = true := by
      rw [isFinite_iff productComparable, product, abs_of_nonneg
        (nearest_nonneg (mul_nonneg (by rwa [difference]) positive.le))]
      exact (nearest_le_value share).trans_lt (by rwa [difference])
    have sum := value_add lowFinite productFinite
    rwa [product, difference] at sum

/-- A number at a weight between two others, kept between them. -/
theorem clamp_weighted {low high weight : Float} (lowFinite : low.isFinite = true)
    (highFinite : high.isFinite = true) (weightFinite : weight.isFinite = true)
    (order : value low ≤ value high) (positive : 0 < value weight) (most : value weight ≤ 1) :
    ∃ result, clamp low high (low + (high - low) * weight) = .ok result ∧ result.isNaN = false ∧
      value result = blend (value low) (value high) (value weight) := by
  rcases value_reach lowFinite highFinite weightFinite order positive most with
    ⟨reached, reachedComparable⟩
  rcases clamp_eq_ok (isNaN_of_isFinite lowFinite) (isNaN_of_isFinite highFinite)
    reachedComparable order with ⟨result, kept, resultComparable, resultValue⟩
  exact ⟨result, kept, resultComparable, by rw [resultValue, reached, blend]⟩

theorem reach_mono {low high : ℚ} (order : low ≤ high) : Monotone (reach low high) := by
  intro smaller larger less
  have nonnegative : 0 ≤ nearest (high - low) := nearest_nonneg (by linarith)
  unfold reach
  split_ifs
  · exact le_rfl
  · have products := nearest_mono (mul_le_mul_of_nonneg_left less nonnegative)
    exact nearest_mono (by linarith)

theorem blend_mono {low high : ℚ} (order : low ≤ high) : Monotone (blend low high) := by
  intro smaller larger less
  exact min_le_min_right _ (max_le_max_right _ (reach_mono order less))

theorem blend_bounds {low high : ℚ} (order : low ≤ high) (weight : ℚ) :
    low ≤ blend low high weight ∧ blend low high weight ≤ high :=
  ⟨le_min (le_max_right _ _) order, min_le_right _ _⟩

/-! ## Between ranks -/

/-- The number at a position between ranks, whose heights are given. -/
def interpolated (heights : ℕ → ℚ) (position : ℚ) : ℚ :=
  if ⌊position⌋₊ = ⌈position⌉₊ then heights ⌊position⌋₊
  else blend (heights ⌊position⌋₊) (heights ⌈position⌉₊) (nearest (position - ⌊position⌋₊))

variable {heights : ℕ → ℚ} {last : ℕ}

theorem interpolated_bounds (ascending : ∀ rank other, rank ≤ other → other ≤ last →
      heights rank ≤ heights other) {position : ℚ} (within : position ≤ last) :
    heights ⌊position⌋₊ ≤ interpolated heights position ∧
      interpolated heights position ≤ heights ⌈position⌉₊ := by
  have order := ascending _ _ (Nat.floor_le_ceil position) (Nat.ceil_le.mpr within)
  unfold interpolated
  split_ifs with whole
  · rw [← whole]
    exact ⟨le_rfl, le_rfl⟩
  · exact blend_bounds order _

/-- Positions in one bracket differ in their weight; others have a whole rank between them. -/
theorem interpolated_mono (ascending : ∀ rank other, rank ≤ other → other ≤ last →
      heights rank ≤ heights other) {position other : ℚ} (order : position ≤ other)
    (within : other ≤ last) :
    interpolated heights position ≤ interpolated heights other := by
  have bounds := interpolated_bounds ascending (order.trans within)
  have otherBounds := interpolated_bounds ascending within
  have otherFloor : ⌊other⌋₊ ≤ last := by
    have floor := Nat.floor_mono within
    rwa [Nat.floor_natCast] at floor
  rcases le_or_gt ⌈position⌉₊ ⌊other⌋₊ with apart | sameBracket
  · exact bounds.2.trans ((ascending _ _ apart otherFloor).trans otherBounds.1)
  · have floors : ⌊position⌋₊ = ⌊other⌋₊ := by
      have floorOrder := Nat.floor_mono order
      have near := Nat.ceil_le_floor_add_one position
      omega
    have fraction : ⌊position⌋₊ ≠ ⌈position⌉₊ := by omega
    have otherLess : (⌊other⌋₊ : ℚ) < other := (Nat.lt_ceil.mp sameBracket).trans_le order
    have otherCeil : ⌊other⌋₊ < ⌈other⌉₊ := Nat.lt_ceil.mpr otherLess
    have ceils : ⌈position⌉₊ = ⌈other⌉₊ := by
      have near := Nat.ceil_le_floor_add_one other
      have ceilOrder := Nat.ceil_mono order
      omega
    have heightOrder := ascending _ _ (Nat.floor_le_ceil other) (Nat.ceil_le.mpr within)
    rw [interpolated, if_neg fraction, interpolated, if_neg otherCeil.ne, floors, ceils]
    exact blend_mono heightOrder (nearest_mono (sub_le_sub_right order _))

/-! ## Ranks -/

theorem value_hundred : value 100.0 = 100 := by
  have unpacked : (100.0 : Float).toModel.unpack =
      .finite .positive 7036874417766400 (-46) (by decide) := rfl
  rw [value, unpacked]
  norm_num [withSign]

variable {percentile : Float} {count : ℕ}

/-- The rank of a percentile among some values, as a number. -/
def position (percentile : ℚ) (count : ℕ) : ℚ :=
  nearest (nearest (percentile / 100) * nearest (count - 1 : ℕ))

theorem position_mono (count : ℕ) : Monotone fun percentile => position percentile count := by
  intro smaller larger less
  have shares := nearest_mono (div_le_div_of_nonneg_right less (by norm_num : (0 : ℚ) ≤ 100))
  have length : 0 ≤ nearest (count - 1 : ℕ) := nearest_nonneg (by positivity)
  exact nearest_mono (mul_le_mul_of_nonneg_right shares length)

theorem value_rank (comparable : percentile.isNaN = false) (least : 0 ≤ value percentile)
    (most : value percentile ≤ 100) (sized : count ≤ 2 ^ 64) :
    value (rank percentile count) = position (value percentile) count ∧
      (rank percentile count).isNaN = false := by
  have limit := overflowLimit_pos
  have hundredFinite : (100.0 : Float).isFinite = true := rfl
  have percentileFinite : percentile.isFinite = true :=
    isFinite_of_lt_word comparable least (most.trans_lt (by norm_num))
  rcases value_div percentileFinite hundredFinite (by rw [value_hundred]; norm_num) with
    ⟨share, shareComparable⟩
  rw [value_hundred] at share
  have shareFinite : (percentile / 100.0).isFinite = true := by
    apply isFinite_of_lt_word shareComparable
    · rw [share]
      exact nearest_nonneg (by positivity)
    · have bounded := nearest_mono (show value percentile / 100 ≤ 1 by linarith)
      rw [nearest_one] at bounded
      rw [share]
      exact bounded.trans_lt (by norm_num)
  rcases value_ofNat (count - 1) with ⟨length, lengthComparable⟩
  have lengthFinite : (Float.ofNat (count - 1)).isFinite = true := by
    have cast : ((count - 1 : ℕ) : ℚ) ≤ 2 ^ (64 : ℤ) := by
      exact_mod_cast (Nat.sub_le count 1).trans sized
    rw [isFinite_iff lengthComparable, length, abs_of_nonneg (nearest_nonneg (by positivity))]
    exact nearest_lt_overflowLimit cast
  have product := value_mul shareFinite lengthFinite
  rw [share, length] at product
  exact product

/-- Below the hundredth percentile there is a double next to it. -/
theorem value_le_of_lt_hundred (comparable : percentile.isNaN = false)
    (below : value percentile < 100) : value percentile ≤ 100 - 2 ^ (-46 : ℤ) := by
  have unpacked : (Float.ofBits 0x4058FFFFFFFFFFFF).toModel.unpack =
      .finite .positive 7036874417766399 (-46) (by decide) := rfl
  have next : orderKey 100.0 = orderKey (Float.ofBits 0x4058FFFFFFFFFFFF) + 1 := by decide +kernel
  have neighbour : value (Float.ofBits 0x4058FFFFFFFFFFFF) = 100 - 2 ^ (-46 : ℤ) := by
    rw [value, unpacked]
    norm_num [withSign]
  have before : orderKey percentile < orderKey 100.0 := by
    by_contra after
    have ordered := value_le_of_totalLe (show (100.0 : Float).isNaN = false from rfl) comparable
      (decide_eq_true (not_lt.mp after))
    rw [value_hundred] at ordered
    exact absurd below (not_lt.mpr ordered)
  rw [← neighbour]
  exact value_le_of_totalLe comparable rfl (decide_eq_true (by omega))

theorem position_nonneg {percentile : ℚ} (nonnegative : 0 ≤ percentile) (count : ℕ) :
    0 ≤ position percentile count := by
  have share : 0 ≤ nearest (percentile / 100) := nearest_nonneg (by positivity)
  have length : 0 ≤ nearest (count - 1 : ℕ) := nearest_nonneg (by positivity)
  exact nearest_nonneg (mul_nonneg share length)

/-- The largest double below one. -/
theorem nearest_below_one : nearest (1 - 2 ^ (-53 : ℤ)) = 1 - 2 ^ (-53 : ℤ) := by
  have unpacked : (Float.ofBits 0x3FEFFFFFFFFFFFFF).toModel.unpack =
      .finite .positive 9007199254740991 (-53) (by decide) := rfl
  have same : value (Float.ofBits 0x3FEFFFFFFFFFFFFF) = 1 - 2 ^ (-53 : ℤ) := by
    rw [value, unpacked]
    norm_num [withSign]
  rw [← same, nearest_value]

/-- Below the hundredth percentile the rank is rounded to less than the rounded last position, hence
to no more than the last position itself. -/
theorem position_le_of_lt_hundred (comparable : percentile.isNaN = false)
    (least : 0 ≤ value percentile) (below : value percentile < 100) (count : ℕ) :
    position (value percentile) count ≤ (count - 1 : ℕ) := by
  have share : nearest (value percentile / 100) ≤ 1 - 2 ^ (-53 : ℤ) := by
    have near := value_le_of_lt_hundred comparable below
    rw [← nearest_below_one]
    apply nearest_mono
    norm_num at near ⊢
    linarith
  have shareNonneg : 0 ≤ nearest (value percentile / 100) := nearest_nonneg (by positivity)
  unfold position
  generalize nearest (value percentile / 100) = weight at share shareNonneg ⊢
  generalize count - 1 = last
  have lastNonneg : (0 : ℚ) ≤ nearest last := nearest_nonneg (by positivity)
  have product : weight * nearest last ≤ (1 - 2 ^ (-53 : ℤ)) * nearest last :=
    mul_le_mul_of_nonneg_right share lastNonneg
  norm_num at product
  rcases le_or_gt (nearest last) last with down | up
  · calc nearest (weight * nearest last) ≤ nearest (nearest last) :=
          nearest_mono (by linarith)
      _ = nearest last := nearest_nearest (by positivity)
      _ ≤ last := down
  · have below : nearest (weight * nearest last) < nearest last := by
      have large : (2 : ℚ) ^ 53 ≤ nearest last := by
        by_contra small
        have exact : last ≤ 2 ^ 53 := by
          have cast : (last : ℚ) ≤ 2 ^ 53 := by linarith
          exact_mod_cast cast
        rw [nearest_natCast exact] at up
        exact lt_irrefl _ up
      norm_num at large
      rcases le_or_gt 1 (weight * nearest last) with some | tiny
      · have error := nearest_le_add some
        norm_num at error
        linarith
      · have bounded := nearest_mono tiny.le
        rw [nearest_one] at bounded
        linarith
    by_contra beyond
    have rounded := nearest_mono (not_le.mp beyond).le
    rw [nearest_nearest (mul_nonneg shareNonneg lastNonneg)] at rounded
    linarith

theorem position_le (comparable : percentile.isNaN = false) (least : 0 ≤ value percentile)
    (most : value percentile ≤ 100) (reachable : value percentile < 100 ∨ count ≤ 2 ^ 53 + 1) :
    position (value percentile) count ≤ (count - 1 : ℕ) := by
  rcases reachable with below | exact
  · exact position_le_of_lt_hundred comparable least below count
  · have last : nearest (count - 1 : ℕ) = (count - 1 : ℕ) := nearest_natCast (by omega)
    have share : nearest (value percentile / 100) ≤ 1 := by
      rw [← nearest_one]
      exact nearest_mono (by linarith)
    calc position (value percentile) count ≤ nearest (1 * (count - 1 : ℕ)) := by
          rw [position, last]
          exact nearest_mono (mul_le_mul_of_nonneg_right share (by positivity))
      _ = (count - 1 : ℕ) := by rw [one_mul, last]

/-! ## Sorted values -/

/-- What the value at a place stands for. -/
def valueAt (sorted : Array Float) (place : ℕ) : ℚ :=
  value (sorted.getD place 0)

/-- Values without NaN and infinities, in ascending order, no more than a word counts. -/
structure Ascending (sorted : Array Float) : Prop where
  present : 0 < sorted.size
  sized : sorted.size ≤ 2 ^ 64
  finite : ∀ place (within : place < sorted.size), sorted[place].isFinite = true
  ascending : ∀ place other, place ≤ other → other ≤ sorted.size - 1 →
    valueAt sorted place ≤ valueAt sorted other

variable {sorted : Array Float}

theorem valueAt_eq {place : ℕ} (within : place < sorted.size) :
    valueAt sorted place = value sorted[place] := by
  simp [valueAt, within]

/-- The fraction of a number that is not whole does not vanish when it is rounded. -/
theorem nearest_fraction_pos {number : Float} (finite : number.isFinite = true)
    (nonnegative : 0 ≤ value number) (fraction : ⌊value number⌋₊ ≠ ⌈value number⌉₊) :
    0 < nearest (value number - ⌊value number⌋₊) := by
  have floorLe := Nat.floor_le nonnegative
  apply lt_of_le_of_ne (nearest_nonneg (by linarith))
  intro zero
  have tiny := abs_lt_of_nearest_eq_zero zero.symm
  -- Both numbers count smallest units, so their difference is at least one of them.
  rcases exists_units number with ⟨units, counted⟩
  rcases exists_units (Float.ofNat ⌊value number⌋₊) with ⟨floorUnits, floorCounted⟩
  rw [(value_ofNat _).1, nearest_floor finite] at floorCounted
  have above : (⌊value number⌋₊ : ℚ) < value number :=
    Nat.lt_ceil.mp (lt_of_le_of_ne (Nat.floor_le_ceil _) fraction)
  have unit : (0 : ℚ) < 2 ^ (-1074 : ℤ) := by positivity
  have difference : value number - ⌊value number⌋₊ =
      ((units - floorUnits : ℤ) : ℚ) * 2 ^ (-1074 : ℤ) := by
    rw [Int.cast_sub, sub_mul, ← counted, ← floorCounted]
  rw [difference, abs_mul, abs_of_pos unit, mul_lt_iff_lt_one_left unit] at tiny
  have none : units - floorUnits = 0 := by
    rw [← Int.abs_lt_one_iff]
    exact_mod_cast tiny
  rw [none, Int.cast_zero, zero_mul] at difference
  linarith

/-- The weight of a rank that is not whole. -/
theorem value_weight {number : Float} (comparable : number.isNaN = false)
    (nonnegative : 0 ≤ value number) (word : value number < 2 ^ 64)
    (fraction : ⌊value number⌋₊ ≠ ⌈value number⌉₊) :
    let weight := number - Float.ofNat ⌊value number⌋₊
    value weight = nearest (value number - ⌊value number⌋₊) ∧ weight.isFinite = true ∧
      0 < value weight ∧ value weight ≤ 1 := by
  intro weight
  have finite := isFinite_of_lt_word comparable nonnegative word
  have floorLe := Nat.floor_le nonnegative
  have lessSucc := Nat.lt_floor_add_one (value number)
  rcases value_ofNat ⌊value number⌋₊ with ⟨below, belowComparable⟩
  rw [nearest_floor finite] at below
  have belowFinite : (Float.ofNat ⌊value number⌋₊).isFinite = true :=
    isFinite_of_lt_word belowComparable (by rw [below]; positivity)
      (by rw [below]; exact floorLe.trans_lt word)
  rcases value_sub finite belowFinite with ⟨difference, differenceComparable⟩
  rw [below] at difference
  have most : nearest (value number - ⌊value number⌋₊) ≤ 1 := by
    rw [← nearest_one]
    exact nearest_mono (by linarith)
  have positive := nearest_fraction_pos finite nonnegative fraction
  refine ⟨difference, ?_, ?_, ?_⟩
  · apply isFinite_of_lt_word differenceComparable
    · rw [difference]
      exact positive.le
    · rw [difference]
      exact most.trans_lt (by norm_num)
  · rwa [difference]
  · rwa [difference]

/-- A percentile of sorted values exists and lies at its position among them. -/
theorem ofSorted_spec (values : Ascending sorted) (comparable : percentile.isNaN = false)
    (least : 0 ≤ value percentile) (most : value percentile ≤ 100)
    (reachable : value percentile < 100 ∨ sorted.size ≤ 2 ^ 53 + 1) :
    ∃ result, ofSorted sorted percentile = .ok (some result) ∧ result.isNaN = false ∧
      value result = interpolated (valueAt sorted) (position (value percentile) sorted.size) ∧
      ∀ place : ℕ, position (value percentile) sorted.size = place →
        sorted[place]? = some result := by
  rcases value_rank comparable least most values.sized with ⟨rankValue, rankComparable⟩
  have nonnegative := position_nonneg least sorted.size
  have within := position_le comparable least most reachable
  have present := values.present
  have sized := values.sized
  unfold ofSorted
  generalize position (value percentile) sorted.size = place at *
  have floorWithin : ⌊place⌋₊ ≤ sorted.size - 1 := by
    have floor := Nat.floor_mono within
    rwa [Nat.floor_natCast] at floor
  have ceilWithin : ⌈place⌉₊ ≤ sorted.size - 1 := Nat.ceil_le.mpr within
  by_cases single : sorted.size ≤ 1
  · have one : sorted.size = 1 := by omega
    have zero : place = 0 := by
      apply le_antisymm _ nonnegative
      simpa [one] using within
    rw [if_pos single, zero]
    refine ⟨sorted[0], by simp [present], isNaN_of_isFinite (values.finite 0 present), ?_, ?_⟩
    · rw [interpolated, Nat.floor_zero, Nat.ceil_zero, if_pos rfl, valueAt_eq present]
    · intro index same
      have first : index = 0 := by exact_mod_cast same.symm
      rw [first, Array.getElem?_eq_getElem present]
  · have word : place < 2 ^ 64 := by
      have size : ((sorted.size - 1 : ℕ) : ℚ) < 2 ^ 64 := by
        exact_mod_cast (show sorted.size - 1 < 2 ^ 64 by omega)
      linarith
    rw [← rankValue] at floorWithin ceilWithin nonnegative word ⊢
    have floorInside : ⌊value (rank percentile sorted.size)⌋₊ < sorted.size := by omega
    have ceilInside : ⌈value (rank percentile sorted.size)⌉₊ < sorted.size := by omega
    rw [if_neg single]
    dsimp only
    rw [floorNat_eq rankComparable word, ceilNat_eq rankComparable nonnegative word,
      min_eq_left ceilWithin, Array.getElem?_eq_getElem floorInside,
      Array.getElem?_eq_getElem ceilInside]
    dsimp only
    by_cases whole : ⌊value (rank percentile sorted.size)⌋₊ = ⌈value (rank percentile sorted.size)⌉₊
    · rw [if_pos whole, interpolated, if_pos whole, valueAt_eq floorInside]
      refine ⟨_, rfl, isNaN_of_isFinite (values.finite _ floorInside), rfl, ?_⟩
      intro index same
      rw [← Array.getElem?_eq_getElem floorInside, same, Nat.floor_natCast]
    · rw [if_neg whole, interpolated, if_neg whole, valueAt_eq floorInside, valueAt_eq ceilInside]
      rcases value_weight rankComparable nonnegative word whole with
        ⟨weight, weightFinite, positive, small⟩
      have order := values.ascending _ _ (Nat.floor_le_ceil _) ceilWithin
      rw [valueAt_eq floorInside, valueAt_eq ceilInside] at order
      rcases clamp_weighted (values.finite _ floorInside) (values.finite _ ceilInside)
        weightFinite order positive small with ⟨result, kept, resultComparable, resultValue⟩
      refine ⟨result, by rw [kept]; rfl, resultComparable, ?_, ?_⟩
      · rw [resultValue, weight]
      · intro index same
        rw [same, Nat.floor_natCast, Nat.ceil_natCast] at whole
        exact absurd rfl whole

theorem value_count {number : ℕ} (exact : number ≤ 2 ^ 53) :
    value (Float.ofNat number) = number := by
  rw [(value_ofNat number).1, nearest_natCast exact]

theorem value_ofNat_zero : value (Float.ofNat 0) = 0 := by
  rw [value_count (Nat.zero_le _), Nat.cast_zero]

theorem value_ofNat_hundred : value (Float.ofNat 100) = 100 := by
  rw [value_count (by norm_num), Nat.cast_ofNat]

theorem position_zero (count : ℕ) : position 0 count = (0 : ℕ) := by
  simp [position]

theorem position_hundred (exact : count ≤ 2 ^ 53 + 1) : position 100 count = (count - 1 : ℕ) := by
  have last : nearest (count - 1 : ℕ) = (count - 1 : ℕ) := nearest_natCast (by omega)
  rw [position, div_self (by norm_num), nearest_one, one_mul, last, last]

section Ordered

variable {smallest largest : Float}

/-- A percentile whose position is whole is the value there. -/
theorem ofSorted_of_position (values : Ascending sorted) (comparable : percentile.isNaN = false)
    (least : 0 ≤ value percentile) (most : value percentile ≤ 100)
    (reachable : value percentile < 100 ∨ sorted.size ≤ 2 ^ 53 + 1) {place : ℕ}
    (there : position (value percentile) sorted.size = place) {number : Float}
    (found : sorted[place]? = some number) : ofSorted sorted percentile = .ok (some number) := by
  rcases ofSorted_spec values comparable least most reachable with ⟨result, computed, -, -, whole⟩
  have same := whole place there
  rw [found, Option.some.injEq] at same
  rw [same, computed]

theorem ofSorted_zero (values : Ascending sorted) (first : sorted[0]? = some smallest) :
    ofSorted sorted 0 = .ok (some smallest) := by
  have below : value (Float.ofNat 0) < 100 := by
    rw [value_ofNat_zero]
    norm_num
  exact ofSorted_of_position values (value_ofNat 0).2 value_ofNat_zero.ge below.le (.inl below)
    (by rw [value_ofNat_zero, position_zero]) first

theorem ofSorted_hundred (values : Ascending sorted) (exact : sorted.size ≤ 2 ^ 53 + 1)
    (last : sorted[sorted.size - 1]? = some largest) :
    ofSorted sorted 100 = .ok (some largest) := by
  have positive : 0 ≤ value (Float.ofNat 100) := by
    rw [value_ofNat_hundred]
    norm_num
  exact ofSorted_of_position values (value_ofNat 100).2 positive value_ofNat_hundred.le (.inr exact)
    (by rw [value_ofNat_hundred, position_hundred exact]) last

/-- Percentiles grow with their rank and lie between the first and the last value. -/
theorem ofSorted_ordered (values : Ascending sorted) (first : sorted[0]? = some smallest)
    (last : sorted[sorted.size - 1]? = some largest) {lower upper : Float}
    (lowerComparable : lower.isNaN = false) (upperComparable : upper.isNaN = false)
    (least : 0 ≤ value lower) (order : value lower ≤ value upper) (most : value upper ≤ 100)
    (reachable : value upper < 100 ∨ sorted.size ≤ 2 ^ 53 + 1) :
    ∃ low high, ofSorted sorted lower = .ok (some low) ∧ ofSorted sorted upper = .ok (some high) ∧
      smallest ≤ low ∧ low ≤ high ∧ high ≤ largest := by
  have lowerReachable : value lower < 100 ∨ sorted.size ≤ 2 ^ 53 + 1 :=
    reachable.imp_left order.trans_lt
  rcases ofSorted_spec values lowerComparable least (order.trans most) lowerReachable with
    ⟨low, lowFound, lowComparable, lowValue, -⟩
  rcases ofSorted_spec values upperComparable (least.trans order) most reachable with
    ⟨high, highFound, highComparable, highValue, -⟩
  have lowWithin := position_le lowerComparable least (order.trans most) lowerReachable
  have highWithin := position_le upperComparable (least.trans order) most reachable
  have positions := position_mono sorted.size order
  have lowBounds := interpolated_bounds values.ascending lowWithin
  have highBounds := interpolated_bounds values.ascending highWithin
  have between := interpolated_mono values.ascending positions highWithin
  have lowFloor := (Nat.floor_le_ceil _).trans (Nat.ceil_le.mpr lowWithin)
  have bottom := values.ascending 0 _ (Nat.zero_le _) lowFloor
  have top := values.ascending _ _ (Nat.ceil_le.mpr highWithin) le_rfl
  rcases Array.getElem?_eq_some_iff.mp first with ⟨firstInside, rfl⟩
  rcases Array.getElem?_eq_some_iff.mp last with ⟨lastInside, rfl⟩
  rw [valueAt_eq firstInside] at bottom
  rw [valueAt_eq lastInside] at top
  have firstComparable := isNaN_of_isFinite (values.finite _ firstInside)
  have lastComparable := isNaN_of_isFinite (values.finite _ lastInside)
  refine ⟨low, high, lowFound, highFound, ?_, ?_, ?_⟩
  · rw [le_iff_value_le firstComparable lowComparable, lowValue]
    exact bottom.trans lowBounds.1
  · rw [le_iff_value_le lowComparable highComparable, lowValue, highValue]
    exact between
  · rw [le_iff_value_le highComparable lastComparable, highValue]
    exact highBounds.2.trans top

end Ordered

/-! ## Values in any order -/

section Values

variable {values : List Float}

theorem ascending_sortAscending (present : values ≠ []) (sized : values.length ≤ 2 ^ 64)
    (finite : ∀ number ∈ values, number.isFinite = true) :
    Ascending (sortAscending values).toArray := by
  have permutation := sortAscending_perm values
  have sortedFinite : ∀ number ∈ sortAscending values, number.isFinite = true :=
    fun number member => finite number (permutation.mem_iff.mp member)
  have inOrder := pairwise_sortAscending values
  rw [List.pairwise_iff_getElem] at inOrder
  constructor
  case present =>
    rw [List.size_toArray, permutation.length_eq]
    exact List.length_pos_of_ne_nil present
  case sized => rwa [List.size_toArray, permutation.length_eq]
  case finite =>
    intro place within
    exact sortedFinite _ (List.getElem_mem _)
  case ascending =>
    intro place other before within
    rcases before.eq_or_lt with rfl | strict
    · exact le_rfl
    · rw [List.size_toArray] at within
      have otherInside : other < (sortAscending values).toArray.size := by
        rw [List.size_toArray]
        omega
      have inside := strict.trans otherInside
      have ordered := inOrder place other inside otherInside strict
      rw [valueAt_eq inside, valueAt_eq otherInside]
      exact value_le_of_totalLe (isNaN_of_isFinite (sortedFinite _ (List.getElem_mem _)))
        (isNaN_of_isFinite (sortedFinite _ (List.getElem_mem _))) ordered

/-- The first and the last of the sorted values are among the values and bound them. -/
theorem exists_bounds (sorted : Ascending (sortAscending values).toArray) :
    ∃ smallest ∈ values, ∃ largest ∈ values,
      (∀ number ∈ values, smallest ≤ number ∧ number ≤ largest) ∧
      (sortAscending values).toArray[0]? = some smallest ∧
      (sortAscending values).toArray[(sortAscending values).toArray.size - 1]? = some largest := by
  have permutation := sortAscending_perm values
  have firstInside := sorted.present
  have lastInside : (sortAscending values).toArray.size - 1 < (sortAscending values).toArray.size :=
    Nat.sub_lt sorted.present one_pos
  have present : ∀ {place} (within : place < (sortAscending values).toArray.size),
      (sortAscending values).toArray[place] ∈ values := by
    intro place within
    rw [← permutation.mem_iff, List.getElem_toArray]
    exact List.getElem_mem _
  refine ⟨_, present firstInside, _, present lastInside, ?_, Array.getElem?_eq_getElem firstInside,
    Array.getElem?_eq_getElem lastInside⟩
  intro number member
  rw [← permutation.mem_iff, ← List.mem_toArray] at member
  rcases Array.getElem_of_mem member with ⟨place, within, rfl⟩
  have comparable : ∀ {place} (within : place < (sortAscending values).toArray.size),
      (sortAscending values).toArray[place].isNaN = false :=
    fun within => isNaN_of_isFinite (sorted.finite _ within)
  rw [le_iff_value_le (comparable firstInside) (comparable within),
    le_iff_value_le (comparable within) (comparable lastInside), ← valueAt_eq firstInside,
    ← valueAt_eq within, ← valueAt_eq lastInside]
  exact ⟨sorted.ascending 0 place (Nat.zero_le _) (Nat.le_sub_one_of_lt within),
    sorted.ascending place _ (Nat.le_sub_one_of_lt within) le_rfl⟩

end Values

end FrameTiming.Percentile

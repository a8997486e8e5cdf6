import FrameTiming.Proofs.Number.Narrowed
import FrameTiming.Proofs.Number.Sum
import FrameTiming.Proofs.Spread

/-! # Extremes

The metrics for extremes look at deviations in single precision. They find the first value whose
deviation is the least or the greatest one there, which is the true extreme if single precision tells
the deviations apart. Otherwise it misses the extreme by no more than what single precision leaves
out.
-/

namespace FrameTiming.Metric

open Number (Reads UpTo narrow offset value)

/-! ## Kept items -/

/-- The first item that no other one goes before. -/
def FirstOf {Item : Type} (before : Item → Item → Prop) (items : List Item) (first : Item) : Prop :=
  ∃ earlier later, items = earlier ++ first :: later ∧ (∀ item ∈ earlier, before first item) ∧
    ∀ item ∈ later, ¬before item first

theorem FirstOf.mem {Item : Type} {before : Item → Item → Prop} {items : List Item} {first : Item}
    (found : FirstOf before items first) : first ∈ items := by
  rcases found with ⟨earlier, later, same, -⟩
  simp [same]

theorem FirstOf.congr {Item : Type} {before other : Item → Item → Prop} {items : List Item}
    {first : Item} (found : FirstOf before items first)
    (same : ∀ left ∈ items, ∀ right ∈ items, before left right ↔ other left right) :
    FirstOf other items first := by
  have member := found.mem
  rcases found with ⟨earlier, later, rfl, above, notBelow⟩
  refine ⟨earlier, later, rfl, fun item inEarlier => ?_, fun item inLater => ?_⟩
  · exact (same first member item (by simp [inEarlier])).mp (above item inEarlier)
  · exact fun goes => notBelow item inLater ((same item (by simp [inLater]) first member).mpr goes)

/-- No item goes before the first one, where one of two items does at most. -/
theorem FirstOf.not_before {Item : Type} {before : Item → Item → Prop} {items : List Item}
    {first : Item} (found : FirstOf before items first)
    (asymmetric : ∀ left ∈ items, ∀ right ∈ items, before left right → ¬before right left)
    {item : Item} (member : item ∈ items) : ¬before item first := by
  have firstMem := found.mem
  rcases found with ⟨earlier, later, same, above, notBelow⟩
  rw [same, List.mem_append, List.mem_cons] at member
  rcases member with inEarlier | rfl | inLater
  · have inItems : item ∈ items := by simp [same, inEarlier]
    exact asymmetric first firstMem item inItems (above item inEarlier)
  · exact fun goes => asymmetric _ firstMem _ firstMem goes goes
  · exact notBelow item inLater

/-- One more item takes the place of the first one only if its key is smaller. -/
theorem FirstOf.concat {Item : Type} {key : Item → ℚ} {items : List Item} {first : Item}
    (found : FirstOf (fun left right => key left < key right) items first) (next : Item) :
    FirstOf (fun left right => key left < key right) (items ++ [next])
      (if key next < key first then next else first) := by
  rcases found with ⟨earlier, later, rfl, above, notBelow⟩
  split
  next smaller =>
    refine ⟨earlier ++ first :: later, [], rfl, ?_, nofun⟩
    intro item member
    rw [List.mem_append, List.mem_cons] at member
    rcases member with before | rfl | after
    · exact smaller.trans (above item before)
    · exact smaller
    · exact smaller.trans_le (not_lt.mp (notBelow item after))
  next notSmaller =>
    refine ⟨earlier, later ++ [next], List.append_assoc .., above, ?_⟩
    intro item member
    rcases List.mem_append.mp member with after | last
    · exact notBelow item after
    · rw [List.mem_singleton.mp last]
      exact notSmaller

/-- Keeping an item until another one has a smaller key leaves the first one with the smallest. -/
theorem firstOf_foldl {Item : Type} {better : Item → Item → Bool} {key : Item → ℚ} {first : Item}
    {rest : List Item}
    (decides : ∀ next ∈ first :: rest, ∀ best ∈ first :: rest,
      better next best = true ↔ key next < key best) :
    FirstOf (fun left right => key left < key right) (first :: rest)
      (rest.foldl (fun best next => if better next best then next else best) first) := by
  induction rest using List.reverseRecOn with
  | nil => exact ⟨[], [], rfl, nofun, nofun⟩
  | append_singleton rest next induction =>
      have among : ∀ item ∈ first :: rest, item ∈ first :: (rest ++ [next]) := by
        intro item member
        exact List.mem_append_left [next] member
      have found := induction fun one oneMem other otherMem =>
        decides one (among one oneMem) other (among other otherMem)
      have compared := decides next (by simp) _ (among _ found.mem)
      rw [List.foldl_append, List.foldl_cons, List.foldl_nil, if_congr compared rfl rfl]
      exact found.concat next

/-- The deviations are looked up again with the values that they belong to. -/
theorem extreme_cons (surpasses : Float32 → Float32 → Bool) (first : Float) (rest : List Float) :
    let deviation := fun number => narrow (number - mean (first :: rest))
    extreme surpasses (first :: rest) = rest.foldl
      (fun best next => if surpasses (deviation next) (deviation best) then next else best)
      first := by
  intro deviation
  let pair (number : Float) := (number, deviation number)
  have paired : (first :: rest).zip (deviations (first :: rest)) =
      pair first :: rest.map pair := by
    have both : ((first :: rest).map id).zip ((first :: rest).map deviation) =
        (first :: rest).map pair := List.zip_map'
    rwa [List.map_id] at both
  have kept : (rest.map pair).foldl
      (fun best next => if surpasses next.2 best.2 then next else best) (pair first) =
      pair (rest.foldl (fun best next =>
        if surpasses (deviation next) (deviation best) then next else best) first) := by
    rw [List.foldl_map]
    apply List.foldl_hom
    intro best next
    exact (apply_ite pair _ next best).symm
  rw [extreme, paired]
  exact congrArg Prod.fst kept

theorem extreme_firstOf (surpasses : Float32 → Float32 → Bool) (key : Float → ℚ)
    {values : List Float} (present : values ≠ [])
    (decides : ∀ next ∈ values, ∀ best ∈ values, surpasses (narrow (next - mean values))
      (narrow (best - mean values)) = true ↔ key next < key best) :
    FirstOf (fun left right => key left < key right) values (extreme surpasses values) := by
  cases values with
  | nil => exact absurd rfl present
  | cons first rest =>
      rw [extreme_cons]
      exact firstOf_foldl decides

/-! ## Deviations -/

/-- Whether the deviation of one value is less than that of another, in single precision. -/
def Below (values : List Float) (left right : Float) : Prop :=
  narrow (left - mean values) < narrow (right - mean values)

instance (values : List Float) (left right : Float) : Decidable (Below values left right) :=
  inferInstanceAs (Decidable (_ < _))

/-- Whether different values have different deviations in single precision. -/
def ToldApart (values : List Float) : Prop :=
  ∀ left ∈ values, ∀ right ∈ values, left < right → Below values left right

instance (values : List Float) : Decidable (ToldApart values) :=
  inferInstanceAs (Decidable (∀ left ∈ values, ∀ right ∈ values, _ → _))

/-- Deviations up to `reach`, far from the end of single precision. -/
structure Spans (reach : ℚ) (values : List Float) : Prop where
  finite : (mean values).isFinite = true
  each : ∀ number ∈ values, |value number - value (mean values)| ≤ reach
  small : reach ≤ 2 ^ 127

/-- How far a value may lie from another one with the same deviation in single precision. -/
def blur (reach : ℚ) : ℚ :=
  reach / 2 ^ 22 + 2 ^ (-148 : ℤ)

theorem Spans.of_upTo {power : ℕ} {values : List Float} (present : values ≠ [])
    (sized : values.length ≤ 2 ^ 64) (low : power ≤ 127)
    (each : ∀ number ∈ values, UpTo power number) : Spans (2 ^ power) values := by
  have center : UpTo power (mean values) := UpTo.mean present sized (by omega) each
  refine ⟨center.finite, fun number member => ?_, pow_le_pow_right₀ (by norm_num) low⟩
  have here := each number member
  rw [abs_le]
  constructor <;> linarith [here.least, here.most, center.least, center.most]

section Finite

variable {values : List Float} (finite : ∀ number ∈ values, number.isFinite = true)
include finite

theorem below_iff {left right : Float} (leftMem : left ∈ values) (rightMem : right ∈ values) :
    Below values left right ↔
      offset (mean values) (value left) < offset (mean values) (value right) :=
  Number.narrow_sub_lt_iff (finite left leftMem) (finite right rightMem) _

/-- Single precision does not turn the order of values round. -/
theorem lt_of_below {left right : Float} (leftMem : left ∈ values) (rightMem : right ∈ values)
    (below : Below values left right) : left < right := by
  have leftComparable := Number.isNaN_of_isFinite (finite left leftMem)
  have rightComparable := Number.isNaN_of_isFinite (finite right rightMem)
  rw [below_iff finite leftMem rightMem] at below
  rw [Number.lt_iff_value_lt leftComparable rightComparable]
  exact (Number.offset_mono (mean values)).reflect_lt below

theorem ordered_of_toldApart (apart : ToldApart values) {left right : Float}
    (leftMem : left ∈ values) (rightMem : right ∈ values) (notBelow : ¬Below values right left) :
    left ≤ right := by
  apply Number.ordered_of_not_lt (Number.isNaN_of_isFinite (finite right rightMem))
    (Number.isNaN_of_isFinite (finite left leftMem))
  exact fun less => notBelow (apart right rightMem left leftMem less)

/-- A value whose deviation is not greater than that of another one is greater by the blur at most. -/
theorem value_le_add_blur {reach : ℚ} (spans : Spans reach values) {left right : Float}
    (leftMem : left ∈ values) (rightMem : right ∈ values) (notBelow : ¬Below values right left) :
    value left ≤ value right + blur reach := by
  rw [below_iff finite rightMem leftMem, not_lt] at notBelow
  have leftError := Number.abs_offset_sub_le spans.finite (spans.each left leftMem) spans.small
  have rightError := Number.abs_offset_sub_le spans.finite (spans.each right rightMem) spans.small
  have twice : blur reach = 2 * (reach / 2 ^ 23 + 2 ^ (-149 : ℤ)) := by
    have unit : (2 : ℚ) ^ (-148 : ℤ) = 2 * 2 ^ (-149 : ℤ) := by
      rw [← zpow_one_add₀ (by norm_num)]
      norm_num
    rw [blur, unit]
    ring
  rw [twice]
  linarith [(abs_le.mp leftError).1, (abs_le.mp rightError).2]

theorem below_asymm {left right : Float} (leftMem : left ∈ values) (rightMem : right ∈ values)
    (below : Below values left right) : ¬Below values right left := by
  rw [below_iff finite leftMem rightMem] at below
  rw [below_iff finite rightMem leftMem]
  exact below.asymm

theorem smallest_firstOf (present : values ≠ []) :
    FirstOf (Below values) values (smallest values) := by
  have found := extreme_firstOf (fun left right => left < right)
    (fun number => offset (mean values) (value number)) present
    fun next nextMem best bestMem => by
      rw [decide_eq_true_iff]
      exact below_iff finite nextMem bestMem
  exact found.congr fun left leftMem right rightMem => (below_iff finite leftMem rightMem).symm

theorem largest_firstOf (present : values ≠ []) :
    FirstOf (fun left right => Below values right left) values (largest values) := by
  have found := extreme_firstOf (fun left right => right < left)
    (fun number => -offset (mean values) (value number)) present
    fun next nextMem best bestMem => by
      rw [decide_eq_true_iff, neg_lt_neg_iff]
      exact below_iff finite bestMem nextMem
  refine found.congr fun left leftMem right rightMem => ?_
  rw [neg_lt_neg_iff]
  exact (below_iff finite rightMem leftMem).symm

end Finite

/-- The metrics for extremes keep the first value whose deviation is the least, or the greatest, in
single precision. No deviations are in another order there than the values, but those of different
values may be equal. So the extremes are the true ones if single precision tells the deviations apart.
In any case they miss them by the blur at most, which is the larger, the farther the values are from
their mean. -/
theorem extremes_exact {values : List Float} (present : values ≠ [])
    (finite : ∀ number ∈ values, number.isFinite = true) :
    ∃ least most, minimum.reduce values = .ok least ∧ maximum.reduce values = .ok most ∧
      (least ∈ values ∧ FirstOf (Below values) values least) ∧
      (most ∈ values ∧ FirstOf (fun left right => Below values right left) values most) ∧
      (∀ left ∈ values, ∀ right ∈ values, Below values left right → left < right) ∧
      (ToldApart values → ∀ number ∈ values, least ≤ number ∧ number ≤ most) ∧
      ∀ reach, Spans reach values → ∀ number ∈ values,
        value least ≤ value number + blur reach ∧ value number ≤ value most + blur reach := by
  have leastFirst := smallest_firstOf finite present
  have mostFirst := largest_firstOf finite present
  have leastMem := leastFirst.mem
  have mostMem := mostFirst.mem
  have asymmetric : ∀ left ∈ values, ∀ right ∈ values, Below values left right →
      ¬Below values right left :=
    fun _ leftMem _ rightMem => below_asymm finite leftMem rightMem
  have noneBelow : ∀ number ∈ values, ¬Below values number (smallest values) :=
    fun _ => leastFirst.not_before asymmetric
  have noneAbove : ∀ number ∈ values, ¬Below values (largest values) number :=
    fun _ => mostFirst.not_before fun _ leftMem _ rightMem => asymmetric _ rightMem _ leftMem
  refine ⟨smallest values, largest values, rfl, rfl, ⟨leastMem, leastFirst⟩,
    ⟨mostMem, mostFirst⟩, fun _ leftMem _ => lt_of_below finite leftMem, ?_, ?_⟩
  · intro apart number member
    exact ⟨ordered_of_toldApart finite apart leastMem member (noneBelow number member),
      ordered_of_toldApart finite apart member mostMem (noneAbove number member)⟩
  · intro reach spans number member
    exact ⟨value_le_add_blur finite spans leastMem member (noneBelow number member),
      value_le_add_blur finite spans member mostMem (noneAbove number member)⟩

/-- The medians, in milliseconds, of three runs whose deviations single precision tells apart. -/
private def steadyMedians : List Float :=
  [20, 16.612345678, 33.300000001]

/-- The second and the third of these differ by less than single precision shows. -/
private def farMedians : List Float :=
  [1, 10000000000, 10000000001]

theorem extremes_exact_of_medians :
    (steadyMedians ≠ [] ∧ (∀ number ∈ steadyMedians, number.isFinite = true) ∧
      ToldApart steadyMedians ∧ minimum.reduce steadyMedians = .ok 16.612345678 ∧
      ∀ number ∈ steadyMedians, (16.612345678 : Float) ≤ number) ∧
    (farMedians ≠ [] ∧ (∀ number ∈ farMedians, number.isFinite = true) ∧
      Spans (2 ^ 34) farMedians ∧ maximum.reduce farMedians = .ok 10000000000 ∧
      value 10000000001 ≤ value 10000000000 + blur (2 ^ 34)) := by
  have steadyFinite : ∀ number ∈ steadyMedians, number.isFinite = true := by decide +kernel
  have farFinite : ∀ number ∈ farMedians, number.isFinite = true := by decide +kernel
  have apart : ToldApart steadyMedians := by decide +kernel
  have least : minimum.reduce steadyMedians = .ok 16.612345678 :=
    congrArg Except.ok (by decide +kernel : smallest steadyMedians = 16.612345678)
  have most : maximum.reduce farMedians = .ok 10000000000 :=
    congrArg Except.ok (by decide +kernel : largest farMedians = 10000000000)
  have sized (number : ℕ) (small : number ≤ 2 ^ 34) : UpTo 34 (Float.ofNat number) := by
    have same : value (Float.ofNat number) = number := Number.value_ofNat_of_le (by omega)
    refine ⟨Number.isFinite_ofNat (by omega), ?_, ?_⟩
    · rw [same]
      positivity
    · rw [same]
      exact_mod_cast small
  have spans : Spans (2 ^ 34) farMedians := by
    apply Spans.of_upTo (by decide) (by decide) (by norm_num)
    simp only [farMedians, List.forall_mem_cons]
    exact ⟨sized 1 (by norm_num), sized 10000000000 (by norm_num), sized 10000000001 (by norm_num),
      nofun⟩
  refine ⟨⟨by decide, steadyFinite, apart, least, ?_⟩, ⟨by decide, farFinite, spans, most, ?_⟩⟩
  · rcases extremes_exact (by decide) steadyFinite with
      ⟨first, _, found, -, -, -, -, exact, -⟩
    cases least.symm.trans found
    exact fun number member => (exact apart number member).1
  · rcases extremes_exact (by decide) farFinite with
      ⟨_, last, -, found, -, -, -, -, missed⟩
    cases most.symm.trans found
    exact (missed (2 ^ 34) spans 10000000001 (.tail _ (.tail _ (.head _)))).2

/-- The medians of two runs a nanosecond apart, and of one at 10 FPS. -/
private def fastMedians : List Float :=
  [16.600003, 16.600002, 100]

/-- The medians of two runs at 10 FPS a nanosecond apart, and of a faster one. -/
private def slowMedians : List Float :=
  [16.6, 100.000003, 100.000004]

/-- Single precision does not tell apart what lies near to one another and far from the mean, so an
extreme is missed. -/
theorem extremes_missed_of_medians :
    (fastMedians ≠ [] ∧ (∀ number ∈ fastMedians, number.isFinite = true) ∧
      minimum.reduce fastMedians = .ok 16.600003 ∧
      ¬∀ number ∈ fastMedians, (16.600003 : Float) ≤ number) ∧
    (slowMedians ≠ [] ∧ (∀ number ∈ slowMedians, number.isFinite = true) ∧
      maximum.reduce slowMedians = .ok 100.000003 ∧
      ¬∀ number ∈ slowMedians, number ≤ (100.000003 : Float)) := by
  have least : smallest fastMedians = 16.600003 := by decide +kernel
  have most : largest slowMedians = 100.000003 := by decide +kernel
  exact ⟨⟨by decide, by decide +kernel, congrArg Except.ok least, by decide +kernel⟩,
    by decide, by decide +kernel, congrArg Except.ok most, by decide +kernel⟩

end FrameTiming.Metric

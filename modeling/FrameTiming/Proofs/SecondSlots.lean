import FrameTiming.Proofs.FrameSeries

/-! # Counting by position

A series can also be counted in slots that are found by position: one for every second from the first
to the end of the latest timepoint, rounded up to a whole second. No timepoint lies before the first
slot or behind the last one, and a slot too many is the last one only.
-/

namespace FrameTiming

namespace Bucket

/-! ## Slots -/

/-- The position of a second in a series, unless the series begins later. -/
def slot? (first second : ℕ) : Option ℕ :=
  if first ≤ second then some (second - first) else none

/-- How many slots there are up to a time that is rounded up to a whole second. -/
def slotCount? (first time : ℕ) : Option ℕ :=
  (slot? first ((time + (secondLength - 1)) / secondLength)).map (· + 1)

/-- Counts a timepoint in its slot, if it has one. -/
def countInSlot? (first : ℕ) (slots : List Bucket) (point : Timepoint) : Option (List Bucket) := do
  let position ← slot? first point.second
  let bucket ← slots[position]?
  return slots.set position ⟨bucket.second, bucket.frameCount + 1, point.state⟩

def dropVacantEnd (slots : List Bucket) : List Bucket :=
  if slots.getLast?.any (·.frameCount = 0) then slots.dropLast else slots

/-- The series of timepoints from the second `first` on, unless a position is outside the slots. -/
def fromSlots? (first : ℕ) (points : List Timepoint) : Option (List Bucket) :=
  match (points.map fun point => point.time.toNat).max? with
  | none => some []
  | some latest => do
      let count ← slotCount? first latest
      let slots ← points.foldlM (countInSlot? first) ((List.range' first count).map vacant)
      return dropVacantEnd slots

example : fromSlots? 1 [⟨2500000000, 7⟩, ⟨1000000000, 1⟩, ⟨2000000000, 8⟩]
    = some [⟨1, 1, 1⟩, ⟨2, 2, 8⟩] := by decide +kernel
example : fromSlots? 2 [⟨2500000000, 7⟩, ⟨1000000000, 1⟩] = none := by decide +kernel

/-! ## One timepoint -/

theorem ofSecond_append_singleton (points : List Timepoint) (point : Timepoint) (second : ℕ) :
    ofSecond (points ++ [point]) second =
      if point.second = second then ⟨second, (ofSecond points second).frameCount + 1, point.state⟩
      else ofSecond points second := by
  simp only [ofSecond, pointsIn_append_singleton]
  split
  · simp
  · rfl

variable {first count : ℕ} {point : Timepoint} {points counted : List Timepoint}

/-- A slot of a second within the series takes the timepoint in. -/
theorem countInSlot?_eq_some (after : first ≤ point.second)
    (before : point.second < first + count) :
    countInSlot? first ((List.range' first count).map (ofSecond counted)) point =
      some ((List.range' first count).map (ofSecond (counted ++ [point]))) := by
  have found : ((List.range' first count).map (ofSecond counted))[point.second - first]? =
      some (ofSecond counted point.second) := by
    rw [List.getElem?_map, List.getElem?_range' (by omega), Option.map_some]
    congr 2
    omega
  simp only [countInSlot?, slot?, if_pos after, found, Option.bind_eq_bind, Option.bind_some,
    Option.pure_def, Option.some.injEq]
  apply List.ext_getElem
  · simp
  · intro position within _
    rw [List.getElem_set, List.getElem_map, List.getElem_map, List.getElem_range',
      ofSecond_append_singleton]
    by_cases here : point.second - first = position
    · have second : point.second = first + 1 * position := by omega
      rw [if_pos here, if_pos second, ← second]
      rfl
    · have elsewhere : point.second ≠ first + 1 * position := by omega
      rw [if_neg here, if_neg elsewhere]

/-- Timepoints within the series are counted one after the other, no matter in which order. -/
theorem foldlM_countInSlot? (within : ∀ point ∈ points, first ≤ point.second ∧
    point.second < first + count) :
    points.foldlM (countInSlot? first) ((List.range' first count).map (ofSecond counted)) =
      some ((List.range' first count).map (ofSecond (counted ++ points))) := by
  induction points generalizing counted with
  | nil => rw [List.append_nil]; rfl
  | cons point rest induction =>
      rw [List.forall_mem_cons] at within
      rw [List.foldlM_cons, countInSlot?_eq_some within.1.1 within.1.2, Option.bind_eq_bind,
        Option.bind_some, induction within.2, List.append_assoc, List.singleton_append]

/-! ## Whole series -/

theorem max?_second {latest : ℕ}
    (isLatest : (points.map fun point => point.time.toNat).max? = some latest) :
    (points.map Timepoint.second).max? = some (latest / secondLength) := by
  rcases List.max?_eq_some_iff.mp isLatest with ⟨member, bound⟩
  rcases List.mem_map.mp member with ⟨point, inside, rfl⟩
  refine List.max?_eq_some_iff.mpr ⟨List.mem_map_of_mem inside, ?_⟩
  intro second inSeconds
  rcases List.mem_map.mp inSeconds with ⟨other, otherInside, rfl⟩
  exact Nat.div_le_div_right (bound _ (List.mem_map_of_mem otherInside))

theorem min?_second {earliest : ℕ}
    (isEarliest : (points.map fun point => point.time.toNat).min? = some earliest) :
    (points.map Timepoint.second).min? = some (earliest / secondLength) := by
  rcases List.min?_eq_some_iff.mp isEarliest with ⟨member, bound⟩
  rcases List.mem_map.mp member with ⟨point, inside, rfl⟩
  refine List.min?_eq_some_iff.mpr ⟨List.mem_map_of_mem inside, ?_⟩
  intro second inSeconds
  rcases List.mem_map.mp inSeconds with ⟨other, otherInside, rfl⟩
  exact Nat.div_le_div_right (bound _ (List.mem_map_of_mem otherInside))

theorem exists_times_of_ne_nil (present : points ≠ []) : ∃ earliest latest,
    (points.map fun point => point.time.toNat).min? = some earliest ∧
      (points.map fun point => point.time.toNat).max? = some latest := by
  have times : (points.map fun point => point.time.toNat) ≠ [] := by simpa using present
  rcases Option.isSome_iff_exists.mp (List.isSome_min?_of_ne_nil times) with ⟨earliest, isEarliest⟩
  rcases Option.isSome_iff_exists.mp (List.isSome_max?_of_ne_nil times) with ⟨latest, isLatest⟩
  exact ⟨earliest, latest, isEarliest, isLatest⟩

theorem dropVacantEnd_concat (slots : List Bucket) (last : Bucket) :
    dropVacantEnd (slots ++ [last]) = if last.frameCount = 0 then slots else slots ++ [last] := by
  simp [dropVacantEnd]

/-- Rounding up gives a slot too many exactly if the latest timepoint lies within its second. -/
theorem dropVacantEnd_slots {latest : ℕ} (begun : first ≤ latest / secondLength)
    (isLatest : (points.map fun point => point.time.toNat).max? = some latest) :
    dropVacantEnd ((List.range' first
      ((latest + (secondLength - 1)) / secondLength - first + 1)).map (ofSecond points)) =
      (List.range' first (latest / secondLength + 1 - first)).map (ofSecond points) := by
  rcases List.max?_eq_some_iff.mp isLatest with ⟨member, bound⟩
  rcases List.mem_map.mp member with ⟨final, inside, same⟩
  have ends : latest / secondLength + 1 - first = latest / secondLength - first + 1 := by omega
  rw [List.range'_1_concat, List.map_append, List.map_singleton, dropVacantEnd_concat]
  by_cases whole : latest % secondLength = 0
  · have count : (latest + (secondLength - 1)) / secondLength = latest / secondLength := by
      simp only [secondLength] at whole ⊢
      omega
    have filled : (ofSecond points (latest / secondLength)).frameCount ≠ 0 := by
      have here : final ∈ pointsIn (latest / secondLength) points :=
        mem_pointsIn.mpr ⟨inside, by rw [Timepoint.second, same]⟩
      exact (List.length_pos_of_mem here).ne'
    rw [count, Nat.add_sub_cancel' begun, if_neg filled, ends, List.range'_1_concat,
      List.map_append, List.map_singleton, Nat.add_sub_cancel' begun]
  · have count : (latest + (secondLength - 1)) / secondLength = latest / secondLength + 1 := by
      simp only [secondLength] at whole ⊢
      omega
    have vacant : (ofSecond points (latest / secondLength + 1)).frameCount = 0 := by
      rw [ofSecond, List.length_eq_zero_iff, List.eq_nil_iff_forall_not_mem]
      intro point isIn
      rcases mem_pointsIn.mp isIn with ⟨listed, here⟩
      have notLater := Nat.div_le_div_right (c := secondLength)
        (bound _ (List.mem_map_of_mem listed))
      rw [Timepoint.second] at here
      omega
    rw [count, Nat.add_sub_cancel' (begun.trans (Nat.le_succ _)), if_pos vacant]

/-- Counting by position never leaves the slots and gives the series. -/
theorem fromSlots?_eq_some (begun : ∀ point ∈ points, first ≤ point.second) :
    fromSlots? first points = some (seriesFrom first points) := by
  by_cases present : points = []
  · rw [present]
    rfl
  rcases exists_times_of_ne_nil present with ⟨earliest, latest, -, isLatest⟩
  have lastSecond := max?_second isLatest
  have start : first ≤ latest / secondLength := by
    rcases List.mem_map.mp (List.max?_mem lastSecond) with ⟨final, inside, same⟩
    rw [← same]
    exact begun final inside
  have roundedUp : latest / secondLength ≤ (latest + (secondLength - 1)) / secondLength :=
    Nat.div_le_div_right (Nat.le_add_right _ _)
  have within : ∀ point ∈ points, first ≤ point.second ∧
      point.second < first + ((latest + (secondLength - 1)) / secondLength - first + 1) := by
    intro point inside
    have notLater := (List.max?_eq_some_iff.mp lastSecond).2 _ (List.mem_map_of_mem inside)
    exact ⟨begun point inside, by omega⟩
  have counted := @foldlM_countInSlot? first _ points [] within
  rw [List.nil_append] at counted
  have slots : slotCount? first latest =
      some ((latest + (secondLength - 1)) / secondLength - first + 1) := by
    rw [slotCount?, slot?, if_pos (start.trans roundedUp), Option.map_some]
  have empty : ofSecond [] = vacant := rfl
  rw [fromSlots?, isLatest]
  simp only [slots, Option.bind_eq_bind, Option.bind_some]
  rw [← empty, counted, Option.bind_some, dropVacantEnd_slots start isLatest,
    seriesFrom_eq_map first points lastSecond]
  rfl

/-! ## What a series tells -/

/-- A series that tells, for the seconds from `first` to `last`, how many timepoints lie in each and
the state of the last of them. No timepoint is left out, the last second has some, and counting by
position gives the same. -/
structure Tells (first last : ℕ) (points : List Timepoint) (series : List Bucket) : Prop where
  seconds : series.map Bucket.second = (List.range' first (last - first + 1)).map Nat.cast
  ordered : first ≤ last
  counts : ∀ bucket ∈ series,
    bucket.frameCount = points.countP fun point => point.second = bucket.second
  states : ∀ bucket ∈ series, bucket.state =
    ((points.filter fun point => point.second = bucket.second).getLast?.map
      Timepoint.state).getD defaultState
  total : (series.map Bucket.frameCount).sum = points.length
  filled : ∀ bucket ∈ series.getLast?, 0 < bucket.frameCount
  positions : fromSlots? first points = some series

theorem tells_seriesFrom {last : ℕ} (begun : ∀ point ∈ points, first ≤ point.second)
    (latest : (points.map Timepoint.second).max? = some last) :
    Tells first last points (seriesFrom first points) := by
  rcases List.max?_eq_some_iff.mp latest with ⟨member, bound⟩
  rcases List.mem_map.mp member with ⟨final, inside, rfl⟩
  have ordered := begun final inside
  have steps : final.second + 1 - first = final.second - first + 1 := by omega
  have series := seriesFrom_eq_map first points latest
  rw [steps] at series
  have ofMember : ∀ bucket ∈ seriesFrom first points,
      ∃ second : ℕ, bucket = ofSecond points second := by
    intro bucket listed
    rw [series] at listed
    rcases List.mem_map.mp listed with ⟨second, -, rfl⟩
    exact ⟨second, rfl⟩
  refine ⟨?_, ordered, ?_, ?_, ?_, ?_, fromSlots?_eq_some begun⟩
  · rw [series, List.map_map]
    rfl
  · intro bucket listed
    rcases ofMember bucket listed with ⟨second, rfl⟩
    simp [ofSecond, pointsIn, List.countP_eq_length_filter]
  · intro bucket listed
    rcases ofMember bucket listed with ⟨second, rfl⟩
    simp [ofSecond, pointsIn]
  · rw [series, List.map_map]
    refine sum_length_pointsIn _ List.nodup_range' points fun point listed => ?_
    have notLater := bound _ (List.mem_map_of_mem listed)
    have notEarlier := begun point listed
    rw [List.mem_range'_1]
    omega
  · intro bucket isLast
    rw [series, List.range'_1_concat, List.map_append, List.map_singleton, List.getLast?_concat,
      Option.mem_some_iff, Nat.add_sub_cancel' ordered] at isLast
    rw [← isLast]
    exact List.length_pos_of_mem (mem_pointsIn.mpr ⟨inside, rfl⟩)

theorem Tells.ne_nil {last : ℕ} {series : List Bucket} (tells : Tells first last points series) :
    series ≠ [] := by
  rintro rfl
  have none := congrArg List.length tells.seconds
  simp at none

/-- A series of timepoints goes from the second of the earliest to that of the latest, a series of
frames from second 0 to the end of the last one. Both tell of every timepoint in its second, whatever
the order of the timepoints, and the times of frames stop at the largest word. -/
theorem series_exact (points : List Timepoint) (frames : List Frame) :
    let times := fun points : List Timepoint => points.map fun point => point.time.toNat
    let ends : List Timepoint := frames.mapIdx fun index frame =>
      ⟨.ofNatClamp (totalDuration (frames.take (index + 1))), frame.state⟩
    (ofTimepoints points = [] ↔ points = []) ∧ (ofFrames frames = [] ↔ frames = []) ∧
    (points ≠ [] → ∃ earliest latest, (times points).min? = some earliest ∧
      (times points).max? = some latest ∧
      Tells (earliest / secondLength) (latest / secondLength) points (ofTimepoints points)) ∧
    (frames ≠ [] → ∃ latest, (times ends).max? = some latest ∧
      Tells 0 (latest / secondLength) ends (ofFrames frames)) := by
  intro times ends
  have ofPoints : points ≠ [] → ∃ earliest latest, (times points).min? = some earliest ∧
      (times points).max? = some latest ∧
      Tells (earliest / secondLength) (latest / secondLength) points (ofTimepoints points) := by
    intro present
    rcases exists_times_of_ne_nil present with ⟨earliest, latest, isEarliest, isLatest⟩
    refine ⟨earliest, latest, isEarliest, isLatest, ?_⟩
    have firstSecond := min?_second isEarliest
    rw [ofTimepoints, firstSecond]
    refine tells_seriesFrom ?_ (max?_second isLatest)
    intro point listed
    exact (List.min?_eq_some_iff.mp firstSecond).2 _ (List.mem_map_of_mem listed)
  have ofEnds : frames ≠ [] → ∃ latest, (times ends).max? = some latest ∧
      Tells 0 (latest / secondLength) ends (ofFrames frames) := by
    intro present
    have endsPresent : ends ≠ [] := by simpa [ends] using present
    rcases exists_times_of_ne_nil endsPresent with ⟨-, latest, -, isLatest⟩
    refine ⟨latest, isLatest, ?_⟩
    rw [ofFrames, Timepoint.ofFrames_eq_mapIdx]
    exact tells_seriesFrom (fun _ _ => Nat.zero_le _) (max?_second isLatest)
  refine ⟨⟨?_, ?_⟩, ⟨?_, ?_⟩, ofPoints, ofEnds⟩
  · intro empty
    by_contra present
    rcases ofPoints present with ⟨_, _, -, -, tells⟩
    exact tells.ne_nil empty
  · rintro rfl
    rfl
  · intro empty
    by_contra present
    rcases ofEnds present with ⟨_, -, tells⟩
    exact tells.ne_nil empty
  · rintro rfl
    rfl

/-- Timepoints out of order with a second between them, and frames that end on whole seconds, the
first of them at time zero. -/
theorem series_exact_of_gap :
    (∃ series, ofTimepoints [⟨3500000000, 7⟩, ⟨1000000000, 1⟩, ⟨3000000000, 8⟩] = series ∧
      series.map Bucket.second = [1, 2, 3] ∧ (series.map Bucket.frameCount).sum = 3) ∧
    (∃ series, ofFrames [⟨0, some 4⟩, ⟨2000000000, none⟩] = series ∧
      series.map Bucket.second = [0, 1, 2] ∧ (series.map Bucket.frameCount).sum = 2) := by
  have exact := series_exact [⟨3500000000, 7⟩, ⟨1000000000, 1⟩, ⟨3000000000, 8⟩]
    [⟨0, some 4⟩, ⟨2000000000, none⟩]
  rcases exact.2.2.1 (by simp) with ⟨earliest, latest, isEarliest, isLatest, ofPoints⟩
  rcases exact.2.2.2 (by simp) with ⟨final, isFinal, ofEnds⟩
  cases isEarliest
  cases isLatest
  cases isFinal
  exact ⟨⟨_, rfl, ofPoints.seconds, ofPoints.total⟩, ⟨_, rfl, ofEnds.seconds, ofEnds.total⟩⟩

end Bucket

end FrameTiming

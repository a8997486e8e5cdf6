import FrameTiming.Proofs.Number.Sum
import FrameTiming.Proofs.RecordedTime

/-! # Parts of a recording

A window is one slice of a recording: it starts with the frame that reaches the time to drop and ends
with the frame that exceeds the cap. Caps compose as the smaller one. Dropping more leaves less, and
dropping again drops more unless the first frame that was kept takes up the time by itself.
-/

namespace FrameTiming.Window

open Number (nearest value overflowLimit)
open Float.Model.UnpackedFloat (Sign)

/-! ## Thresholds -/

/-- Whether a time in nanoseconds is no less than some seconds. -/
def Reaches (seconds : Float) (time : ℕ) : Prop :=
  threshold seconds ≤ Float.ofNat time

/-- Whether a time in nanoseconds is more than some seconds. -/
def Exceeds (seconds : Float) (time : ℕ) : Prop :=
  threshold seconds < Float.ofNat time

instance (seconds : Float) (time : ℕ) : Decidable (Reaches seconds time) :=
  inferInstanceAs (Decidable (_ ≤ _))

instance (seconds : Float) (time : ℕ) : Decidable (Exceeds seconds time) :=
  inferInstanceAs (Decidable (_ < _))

theorem value_nanoseconds : value 1e9 = 10 ^ 9 := by
  have unpacked : (1e9 : Float).toModel.unpack =
      .finite .positive 8388608000000000 (-23) (by decide) := rfl
  rw [value, unpacked]
  norm_num [Number.withSign]

theorem nearest_limit_mul (sign : Sign) :
    nearest (Number.withSign sign overflowLimit * 10 ^ 9) = Number.withSign sign overflowLimit := by
  have positive := Number.overflowLimit_pos
  have most := (abs_le.mp (Number.abs_nearest_le (overflowLimit * 10 ^ 9))).2
  have least : overflowLimit ≤ nearest (overflowLimit * 10 ^ 9) := by
    conv_lhs => rw [← Number.nearest_overflowLimit]
    exact Number.nearest_mono (by linarith)
  have same := le_antisymm most least
  cases sign with
  | positive => exact same
  | negative => rw [Number.withSign, neg_mul, Number.nearest_neg, same]

/-- The threshold is the product rounded once. That holds of infinite seconds as well. -/
theorem value_threshold {seconds : Float} (comparable : seconds.isNaN = false) :
    value (threshold seconds) = nearest (value seconds * 10 ^ 9) ∧
      (threshold seconds).isNaN = false := by
  by_cases finite : seconds.isFinite = true
  · rw [← value_nanoseconds]
    exact Number.value_mul finite (show (1e9 : Float).isFinite = true from rfl)
  · rcases Number.unpack_eq_infinity comparable finite with ⟨sign, unpacked, limit⟩
    have product : (threshold seconds).toModel.unpack = .infinity sign := by
      change (Float.Model.pack (seconds.toModel.unpack.mul .binary64
        (1e9 : Float).toModel.unpack)).unpack = .infinity sign
      rw [unpacked]
      cases sign <;> exact Number.unpack_packedInfinity _
    rw [limit, nearest_limit_mul, value, Number.isNaN_eq, product]
    exact ⟨rfl, rfl⟩

theorem threshold_mono {shorter longer : Float} (order : shorter ≤ longer) :
    threshold shorter ≤ threshold longer := by
  rcases Number.comparable_of_le order with ⟨shorterComparable, longerComparable⟩
  rcases value_threshold shorterComparable with ⟨shorterValue, shorterResult⟩
  rcases value_threshold longerComparable with ⟨longerValue, longerResult⟩
  rw [Number.le_iff_value_le shorterComparable longerComparable] at order
  rw [Number.le_iff_value_le shorterResult longerResult, shorterValue, longerValue]
  exact Number.nearest_mono (mul_le_mul_of_nonneg_right order (by norm_num))

/-! ## Slices -/

/-- The items from one position to another, both included. -/
def slice {Item : Type} (items : List Item) (first last : ℕ) : List Item :=
  (items.take (last + 1)).drop first

/-- The time from the start of one frame to the end of another. -/
def span (frames : List Frame) (first last : ℕ) : ℕ :=
  totalDuration (slice frames first last)

/-- Whether enough time has passed to start. Without seconds to wait for, none has to. -/
def Waited (drop? : Option Float) (time : ℕ) : Prop :=
  ∀ seconds ∈ drop?, 0 < seconds → Reaches seconds time

instance (drop? : Option Float) (time : ℕ) : Decidable (Waited drop? time) :=
  inferInstanceAs (Decidable (∀ seconds ∈ drop?, _))

/-- The position of the first frame that ends late enough, measured from the start of the log. -/
def StartsAt (drop? : Option Float) (frames : List Frame) (first : ℕ) : Prop :=
  IsLeast {index | index < frames.length ∧ Waited drop? (span frames 0 index)} first

/-- Whether a frame takes what starts at another one past the cap. -/
def Overruns (cap? : Option Float) (frames : List Frame) (first index : ℕ) : Prop :=
  ∃ seconds ∈ cap?, Exceeds seconds (span frames first index)

/-- The position of the first frame past the cap, measured from the start of frame `first`, or of the
last frame if there is none. -/
inductive EndsAt (cap? : Option Float) (frames : List Frame) (first : ℕ) : ℕ → Prop
  | overrun {last : ℕ}
      (least : IsLeast {index | first ≤ index ∧ index < frames.length ∧
        Overruns cap? frames first index} last) : EndsAt cap? frames first last
  | atLast {last : ℕ} (present : first ≤ last) (isLast : last + 1 = frames.length)
      (never : ∀ index, first ≤ index → index < frames.length →
        ¬Overruns cap? frames first index) : EndsAt cap? frames first last

theorem slice_add {Item : Type} (items : List Item) (first steps : ℕ) :
    slice items first (first + steps) = (items.drop first).take (steps + 1) := by
  rw [slice, Nat.add_assoc, List.drop_take, Nat.add_sub_cancel_left]

theorem map_slice {Item Other : Type} (f : Item → Other) (items : List Item) (first last : ℕ) :
    (slice items first last).map f = slice (items.map f) first last := by
  rw [slice, slice, List.map_drop, List.map_take]

/-! ## Positions -/

theorem waited_of_not_positive {drop? : Option Float} (nothing : ∀ seconds ∈ drop?, ¬0 < seconds)
    (time : ℕ) : Waited drop? time :=
  fun seconds member positive => absurd positive (nothing seconds member)

theorem waited_some_iff {seconds : Float} (positive : 0 < seconds) (time : ℕ) :
    Waited (some seconds) time ↔ Reaches seconds time := by
  simp [Waited, positive]

theorem overruns_some_iff (seconds : Float) (frames : List Frame) (first index : ℕ) :
    Overruns (some seconds) frames first index ↔ Exceeds seconds (span frames first index) := by
  simp [Overruns]

theorem findIdx_range_of_isLeast {count position : ℕ} {holds : ℕ → Prop} [DecidablePred holds]
    (least : IsLeast {index | index < count ∧ holds index} position) :
    (List.range count).findIdx (fun index => holds index) = position := by
  rcases least with ⟨⟨within, here⟩, least⟩
  rw [List.findIdx_eq (by simpa using within)]
  simp only [List.getElem_range, decide_eq_true_iff, decide_eq_false_iff_not]
  refine ⟨here, fun earlier before holdsBefore => ?_⟩
  exact absurd (least ⟨before.trans within, holdsBefore⟩) (Nat.not_le.mpr before)

theorem findIdx_range_of_never {count : ℕ} {holds : ℕ → Prop} [DecidablePred holds]
    (never : ∀ index < count, ¬holds index) :
    (List.range count).findIdx (fun index => holds index) = count := by
  rw [List.findIdx_eq_length_of_false, List.length_range]
  intro index member
  exact decide_eq_false (never index (List.mem_range.mp member))

/-- The end times are looked through in order. Sums of words that do not overflow are converted like
natural numbers. -/
theorem findIdx_endTimes {frames : List Frame} (fits : totalDuration frames < 2 ^ 64)
    (late : Float → Bool) :
    (endTimes 0 frames).findIdx (fun time => late time.toFloat) =
      (List.range frames.length).findIdx fun index => late (Float.ofNat (span frames 0 index)) := by
  have exact := endTimes_map_toNat fits
  have converted : (fun time : UInt64 => late time.toFloat) =
      (fun time => late (Float.ofNat time)) ∘ UInt64.toNat := by
    funext time
    rw [Number.toFloat_eq_ofNat]
    rfl
  rw [converted, ← List.findIdx_map, exact, List.findIdx_map]
  rfl

theorem dropFront_eq_drop (drop? : Option Float) {frames : List Frame}
    (fits : totalDuration frames < 2 ^ 64) :
    dropFront drop? frames = frames.drop
      ((List.range frames.length).findIdx fun index => Waited drop? (span frames 0 index)) := by
  by_cases waits : ∃ seconds ∈ drop?, 0 < seconds
  · rcases waits with ⟨seconds, rfl, positive⟩
    simp only [dropFront, if_pos positive, dropUntil_eq_drop, waited_some_iff positive]
    rw [findIdx_endTimes fits fun time => threshold seconds ≤ time]
    rfl
  · push Not at waits
    have free := waited_of_not_positive waits
    have atOnce : (List.range frames.length).findIdx
        (fun index => decide (Waited drop? (span frames 0 index))) = 0 := by
      cases frames <;> simp [List.range_succ_eq_map, List.findIdx_cons, free]
    rw [atOnce, List.drop_zero]
    cases drop? with
    | none => rfl
    | some seconds => exact if_neg (waits seconds rfl)

theorem capDuration_eq_take (cap? : Option Float) {frames : List Frame}
    (fits : totalDuration frames < 2 ^ 64) {last : ℕ} (ends : EndsAt cap? frames 0 last) :
    capDuration cap? frames = frames.take (last + 1) := by
  cases cap? with
  | none =>
      cases ends with
      | overrun least =>
          rcases least.1.2.2 with ⟨_, member, -⟩
          cases member
      | atLast _ isLast => rw [isLast, List.take_length]; rfl
  | some seconds =>
      rw [capDuration, takeThrough_eq_take, findIdx_endTimes fits fun time =>
        threshold seconds < time]
      change frames.take ((List.range frames.length).findIdx (fun index =>
        Exceeds seconds (span frames 0 index)) + 1) = _
      cases ends with
      | overrun least =>
          simp only [overruns_some_iff, Nat.zero_le, true_and] at least
          rw [findIdx_range_of_isLeast least]
      | atLast _ isLast never =>
          simp only [overruns_some_iff, Nat.zero_le, true_implies] at never
          rw [findIdx_range_of_never never, isLast, List.take_length, List.take_of_length_le]
          omega

/-- Positions are counted from the first frame that is left. -/
theorem EndsAt.drop {cap? : Option Float} {frames : List Frame} {first steps : ℕ}
    (ends : EndsAt cap? frames first (first + steps)) : EndsAt cap? (frames.drop first) 0 steps := by
  have shifted : ∀ index, Overruns cap? (frames.drop first) 0 index ↔
      Overruns cap? frames first (first + index) := by
    intro index
    simp only [Overruns, span, slice_add]
    rfl
  cases ends with
  | overrun least =>
      rcases least with ⟨⟨-, within, past⟩, least⟩
      refine .overrun ⟨⟨Nat.zero_le _, ?_, (shifted steps).mpr past⟩, ?_⟩
      · rw [List.length_drop]
        omega
      · rintro index ⟨-, inside, pastIndex⟩
        rw [List.length_drop] at inside
        have later := least ⟨Nat.le_add_right _ _, by omega, (shifted index).mp pastIndex⟩
        omega
  | atLast _ isLast never =>
      refine .atLast (Nat.zero_le _) ?_ ?_
      · rw [List.length_drop]
        omega
      · intro index _ inside past
        rw [List.length_drop] at inside
        exact never (first + index) (Nat.le_add_right _ _) (by omega) ((shifted index).mp past)

/-- Every window that starts has an end. -/
theorem exists_endsAt (cap? : Option Float) {frames : List Frame} {first : ℕ}
    (within : first < frames.length) : ∃ last, EndsAt cap? frames first last := by
  classical
  by_cases past : ∃ index, first ≤ index ∧ index < frames.length ∧ Overruns cap? frames first index
  · exact ⟨_, .overrun (Nat.isLeast_find past)⟩
  · refine ⟨frames.length - 1, .atLast (by omega) (by omega) fun index after inside pastIndex => ?_⟩
    exact past ⟨index, after, inside, pastIndex⟩

theorem EndsAt.bounds {cap? : Option Float} {frames : List Frame} {first last : ℕ}
    (ends : EndsAt cap? frames first last) : first ≤ last ∧ last < frames.length := by
  cases ends with
  | overrun least => exact ⟨least.1.1, least.1.2.1⟩
  | atLast present isLast => exact ⟨present, by omega⟩

/-- A window that starts is the slice up to its end. -/
theorem apply_eq_slice {drop? cap? : Option Float} {frames : List Frame} {first last : ℕ}
    (fits : totalDuration frames < 2 ^ 64) (starts : StartsAt drop? frames first)
    (ends : EndsAt cap? frames first last) : apply drop? cap? frames = slice frames first last := by
  rcases Nat.exists_eq_add_of_le ends.bounds.1 with ⟨steps, rfl⟩
  have part := FrameLog.totalDuration_le_of_sublist (List.drop_sublist first frames)
  rw [apply, dropFront_eq_drop drop? fits, findIdx_range_of_isLeast starts, slice_add]
  exact capDuration_eq_take cap? (part.trans_lt fits) ends.drop

/-- Nothing is left of a log that ends before the window starts. -/
theorem apply_eq_nil {drop? : Option Float} (cap? : Option Float) {frames : List Frame}
    (fits : totalDuration frames < 2 ^ 64) (never : ¬∃ first, StartsAt drop? frames first) :
    apply drop? cap? frames = [] := by
  have waits : ∀ index < frames.length, ¬Waited drop? (span frames 0 index) := by
    intro index within waited
    exact never ⟨_, Nat.isLeast_find ⟨index, within, waited⟩⟩
  rw [apply, dropFront_eq_drop drop? fits, findIdx_range_of_never waits, List.drop_length]
  exact List.prefix_nil.mp (capDuration_isPrefix cap? [])

theorem reaches_of_eq {seconds : Float} {time : ℕ} (same : threshold seconds = Float.ofNat time) :
    Reaches seconds time ∧ ¬Exceeds seconds time := by
  have comparable := (Number.value_ofNat time).2
  rw [Reaches, Exceeds, same, Number.le_iff_value_le comparable comparable,
    Number.lt_iff_value_lt comparable comparable]
  exact ⟨le_rfl, lt_irrefl _⟩

/-- A window is a slice of the log, in durations as in states: from the first frame that ends after
the time to drop, or just then, to the first one from there on that ends past the cap, or to the last
one if none does. Without a time to drop it starts with the first frame; it is empty only where no
frame ends late enough, which a cap has no part in. -/
theorem window_selects_slice (drop? cap? : Option Float) {frames : List Frame}
    (fits : totalDuration frames < 2 ^ 64) :
    let window := apply drop? cap? frames
    (∀ first, StartsAt drop? frames first → (∃ last, EndsAt cap? frames first last) ∧
      ∀ last, EndsAt cap? frames first last →
        first ≤ last ∧ last < frames.length ∧ window = slice frames first last ∧
          window.map Frame.duration = slice (frames.map Frame.duration) first last ∧
          window.map Frame.state? = slice (frames.map Frame.state?) first last) ∧
      (window = [] ↔ ¬∃ first, StartsAt drop? frames first) ∧
      ((∀ seconds ∈ drop?, ¬0 < seconds) → frames ≠ [] →
        StartsAt drop? frames 0 ∧ window ≠ []) ∧
      ∀ (seconds : Float) (time : ℕ), threshold seconds = Float.ofNat time →
        Reaches seconds time ∧ ¬Exceeds seconds time := by
  intro window
  have sliced : ∀ first last, StartsAt drop? frames first → EndsAt cap? frames first last →
      window = slice frames first last := fun _ _ => apply_eq_slice fits
  have empty : window = [] ↔ ¬∃ first, StartsAt drop? frames first := by
    refine ⟨?_, apply_eq_nil cap? fits⟩
    rintro none ⟨first, starts⟩
    rcases exists_endsAt cap? starts.1.1 with ⟨last, ends⟩
    have length := congrArg List.length (none.symm.trans (sliced first last starts ends))
    have bounds := ends.bounds
    simp only [slice, List.length_nil, List.length_drop, List.length_take] at length
    omega
  refine ⟨fun first starts => ⟨exists_endsAt cap? starts.1.1, fun last ends => ?_⟩, empty, ?_,
    fun _ _ => reaches_of_eq⟩
  · have same := sliced first last starts ends
    refine ⟨ends.bounds.1, ends.bounds.2, same, ?_, ?_⟩
    · rw [same, map_slice]
    · rw [same, map_slice]
  · intro nothing present
    have starts : StartsAt drop? frames 0 :=
      ⟨⟨List.length_pos_of_ne_nil present, waited_of_not_positive nothing _⟩,
        fun _ _ => Nat.zero_le _⟩
    exact ⟨starts, fun none => empty.mp none ⟨0, starts⟩⟩

/-- Frames of half a second each, in the states 0 to 4. -/
private def halfSeconds : List Frame :=
  [0, 1, 2, 3, 4].map fun state => ⟨500000000, some state⟩

/-- One second is reached exactly, by the second frame in the log and by the second one that is left:
the former is kept, the latter does not end the window. -/
theorem window_selects_slice_of_halfSeconds :
    totalDuration halfSeconds < 2 ^ 64 ∧ StartsAt (some 1) halfSeconds 1 ∧
      EndsAt (some 1) halfSeconds 1 3 ∧
      (apply (some 1) (some 1) halfSeconds).map Frame.state? = [some 1, some 2, some 3] := by
  have fits : totalDuration halfSeconds < 2 ^ 64 := by decide
  have starts : StartsAt (some 1) halfSeconds 1 := by
    refine ⟨⟨by decide, by decide +kernel⟩, fun index enough => Nat.one_le_iff_ne_zero.mpr ?_⟩
    rintro rfl
    exact absurd enough.2 (by decide +kernel)
  have ends : EndsAt (some 1) halfSeconds 1 3 := by
    have past (index : ℕ) (beyond : Overruns (some 1) halfSeconds 1 index) :
        Exceeds 1 (span halfSeconds 1 index) := (overruns_some_iff 1 halfSeconds 1 index).mp beyond
    refine .overrun ⟨⟨by decide, by decide, ?_⟩, ?_⟩
    · exact (overruns_some_iff 1 halfSeconds 1 3).mpr (by decide +kernel)
    · rintro index ⟨after, -, beyond⟩
      by_contra early
      have one_or_two : index = 1 ∨ index = 2 := by omega
      rcases one_or_two with rfl | rfl
      · exact absurd (past 1 beyond) (by decide +kernel)
      · exact absurd (past 2 beyond) (by decide +kernel)
  rcases ((window_selects_slice (some 1) (some 1) fits).1 1 starts).2 3 ends with
    ⟨-, -, -, -, states⟩
  exact ⟨fits, starts, ends, states⟩

/-! ## Caps after caps -/

/-- Taking twice stops at whichever threshold is passed first. -/
theorem takeThrough_takeThrough {first second both : Float}
    (earlier : ∀ time : UInt64, both < time.toFloat ↔ first < time.toFloat ∨ second < time.toFloat)
    (start : UInt64) (frames : List Frame) :
    takeThrough second start (takeThrough first start frames) = takeThrough both start frames := by
  induction frames generalizing start with
  | nil => rfl
  | cons frame rest induction =>
      have decided := earlier (addTime start frame.duration)
      by_cases passed : first < (addTime start frame.duration).toFloat
      · simp [takeThrough, passed, decided]
      · simp [takeThrough, passed, decided, induction]

theorem threshold_min_lt_iff {first second : Float} (firstComparable : first.isNaN = false)
    (secondComparable : second.isNaN = false) (time : UInt64) :
    threshold (min first second) < time.toFloat ↔
      threshold first < time.toFloat ∨ threshold second < time.toFloat := by
  have smaller : min first second = if first ≤ second then first else second := rfl
  rw [smaller]
  split
  next order =>
    have sooner (passed : threshold second < time.toFloat) : threshold first < time.toFloat :=
      Number.lt_of_ordered_of_lt (threshold_mono order) passed
    tauto
  next order =>
    have reverse : second ≤ first := by
      rw [Number.le_iff_value_le firstComparable secondComparable, not_le] at order
      exact (Number.le_iff_value_le secondComparable firstComparable).mpr order.le
    have sooner (passed : threshold first < time.toFloat) : threshold second < time.toFloat :=
      Number.lt_of_ordered_of_lt (threshold_mono reverse) passed
    tauto

theorem capDuration_capDuration {first second : Float} (firstComparable : first.isNaN = false)
    (secondComparable : second.isNaN = false) (frames : List Frame) :
    capDuration (some second) (capDuration (some first) frames) =
      capDuration (some (min first second)) frames :=
  takeThrough_takeThrough (threshold_min_lt_iff firstComparable secondComparable) 0 frames

/-- Two caps keep what the smaller one keeps. So a cap changes nothing the second time, the order of
caps does not matter, and what a cap keeps starts what a larger one keeps. That holds of frames that
take no time and of times beyond what a word holds as well. -/
theorem caps_compose {first second : Float} (firstComparable : first.isNaN = false)
    (secondComparable : second.isNaN = false) (frames : List Frame) :
    let capped := fun seconds => capDuration (some seconds)
    capped second (capped first frames) = capped (min first second) frames ∧
      capped first (capped first frames) = capped first frames ∧
      capped second (capped first frames) = capped first (capped second frames) ∧
      (first ≤ second → capped first frames <+: capped second frames) := by
  intro capped
  have composed := capDuration_capDuration firstComparable secondComparable frames
  have swapped : capped first (capped second frames) = capped (min first second) frames :=
    takeThrough_takeThrough (fun time =>
      (threshold_min_lt_iff firstComparable secondComparable time).trans or_comm) 0 frames
  refine ⟨composed, ?_, composed.trans swapped.symm, fun order => ?_⟩
  · have same : min first first = first := ite_self first
    have again := capDuration_capDuration firstComparable firstComparable frames
    rwa [same] at again
  · have smaller : min first second = first := if_pos order
    rw [smaller] at swapped
    rw [← swapped]
    exact capDuration_isPrefix _ _

/-- Frames without duration, one of exactly a second, and more time than fits a word. -/
private def stalled : List Frame :=
  [0, 1000000000, 0, 1, 18446744073709551615, 0].map fun duration => ⟨duration, none⟩

theorem caps_compose_of_stalled :
    (2.5 : Float).isNaN = false ∧ (1 : Float).isNaN = false ∧ (1 : Float) ≤ 2.5 ∧
      capDuration (some 1) (capDuration (some 2.5) stalled) = stalled.take 4 ∧
      capDuration (some 1) stalled <+: capDuration (some 2.5) stalled := by
  have longComparable : (2.5 : Float).isNaN = false := rfl
  have shortComparable : (1 : Float).isNaN = false := rfl
  have order : (1 : Float) ≤ 2.5 := by decide +kernel
  rcases caps_compose longComparable shortComparable stalled with ⟨composed, -⟩
  rcases caps_compose shortComparable longComparable stalled with ⟨-, -, -, shorter⟩
  refine ⟨longComparable, shortComparable, order, composed.trans ?_, shorter order⟩
  decide +kernel

/-! ## Drops after drops -/

/-- A threshold that is reached later leaves less. -/
theorem dropUntil_isSuffix_dropUntil {sooner later : Float} (order : sooner ≤ later)
    (start : UInt64) (frames : List Frame) :
    dropUntil later start frames <:+ dropUntil sooner start frames := by
  induction frames generalizing start with
  | nil => exact List.suffix_rfl
  | cons frame rest induction =>
      by_cases reached : sooner ≤ (addTime start frame.duration).toFloat
      · have kept : dropUntil sooner start (frame :: rest) = frame :: rest := if_pos reached
        rw [kept, dropUntil_eq_drop]
        exact List.drop_suffix _ _
      · have missed : ¬later ≤ (addTime start frame.duration).toFloat :=
          fun late => reached (Number.ordered_trans order late)
        rw [dropUntil, dropUntil, if_neg reached, if_neg missed]
        exact induction _

theorem dropFront_isSuffix_dropFront {shorter longer : Float} (order : shorter ≤ longer)
    (frames : List Frame) :
    dropFront (some longer) frames <:+ dropFront (some shorter) frames := by
  by_cases waits : 0 < shorter
  · have longerWaits : 0 < longer := Number.lt_of_lt_of_ordered waits order
    rw [dropFront, dropFront, if_pos waits, if_pos longerWaits]
    exact dropUntil_isSuffix_dropUntil (threshold_mono order) 0 frames
  · have whole : dropFront (some shorter) frames = frames := if_neg waits
    rw [whole]
    exact dropFront_isSuffix _ _

theorem addTime_zero (time : UInt64) : addTime 0 time = time := by
  have bound := time.toNat_lt
  rw [← UInt64.toNat_inj, toNat_addTime, UInt64.size, UInt64.toNat_zero]
  omega

/-- The first frame is kept exactly if it takes up the time to drop by itself. -/
theorem dropFront_cons {seconds : Float} (waits : 0 < seconds) (first : Frame)
    (rest : List Frame) :
    dropFront (some seconds) (first :: rest) =
      if Reaches seconds first.duration.toNat then first :: rest
      else dropUntil (threshold seconds) first.duration rest := by
  rw [dropFront, if_pos waits, dropUntil, addTime_zero, Number.toFloat_eq_ofNat]
  rfl

/-- Whether nothing is left to drop: there are no frames, or the first one lasts long enough. -/
def PastCutoff (seconds : Float) (frames : List Frame) : Prop :=
  frames = [] ∨ ∃ first rest, frames = first :: rest ∧ Reaches seconds first.duration.toNat

theorem dropFront_eq_self_iff {seconds : Float} (waits : 0 < seconds) (frames : List Frame) :
    dropFront (some seconds) frames = frames ↔ PastCutoff seconds frames := by
  cases frames with
  | nil =>
      refine ⟨fun _ => .inl rfl, fun _ => ?_⟩
      exact List.suffix_nil.mp (dropFront_isSuffix _ [])
  | cons first rest =>
      rw [dropFront_cons waits]
      by_cases reached : Reaches seconds first.duration.toNat
      · rw [if_pos reached]
        exact ⟨fun _ => .inr ⟨first, rest, rfl, reached⟩, fun _ => rfl⟩
      · rw [if_neg reached, dropUntil_eq_drop]
        constructor
        · intro same
          have length := congrArg List.length same
          rw [List.length_drop, List.length_cons] at length
          omega
        · rintro (none | ⟨_, _, same, alone⟩)
          · cases none
          · cases same
            exact absurd alone reached

/-- Dropping more leaves a part of what dropping less leaves. Dropping the same time again changes
nothing exactly if no frame was left, or the first one that was takes up the time by itself, and
drops at least one more frame otherwise. Of a log that starts with such a frame nothing is dropped to
begin with. -/
theorem drops_compose (frames : List Frame) :
    let dropped := fun seconds => dropFront (some seconds)
    (∀ shorter longer : Float, shorter ≤ longer →
      dropped longer frames <:+ dropped shorter frames) ∧
      ∀ seconds : Float, 0 < seconds →
        let once := dropped seconds frames
        let twice := dropped seconds once
        (twice = once ↔ PastCutoff seconds once) ∧
          (¬PastCutoff seconds once → twice <:+ once ∧ twice.length < once.length) ∧
          (PastCutoff seconds frames → once = frames ∧ twice = once) := by
  intro dropped
  refine ⟨fun _ _ order => dropFront_isSuffix_dropFront order frames, ?_⟩
  intro seconds waits once twice
  have again : twice = once ↔ PastCutoff seconds once := dropFront_eq_self_iff waits once
  refine ⟨again, fun more => ?_, fun past => ?_⟩
  · have shorter : twice <:+ once := dropFront_isSuffix _ once
    refine ⟨shorter, lt_of_le_of_ne shorter.length_le fun same => ?_⟩
    exact more (again.mp (shorter.eq_of_length same))
  · have same : once = frames := (dropFront_eq_self_iff waits frames).mpr past
    exact ⟨same, again.mpr (by rwa [same])⟩

/-- The second frame ends the first second, but takes up only a part of it. -/
theorem drops_compose_of_halfSeconds :
    (0 : Float) < 1 ∧ (1 : Float) ≤ 1.5 ∧ ¬PastCutoff 1 (dropFront (some 1) halfSeconds) ∧
      dropFront (some 1.5) halfSeconds <:+ dropFront (some 1) halfSeconds ∧
      (dropFront (some 1) (dropFront (some 1) halfSeconds)).length <
        (dropFront (some 1) halfSeconds).length := by
  have waits : (0 : Float) < 1 := by decide +kernel
  have order : (1 : Float) ≤ 1.5 := by decide +kernel
  have left : dropFront (some 1) halfSeconds = halfSeconds.drop 1 := by decide +kernel
  have more : ¬PastCutoff 1 (dropFront (some 1) halfSeconds) := by
    rw [left]
    rintro (none | ⟨_, _, same, alone⟩)
    · cases none
    · cases same
      exact absurd alone (by decide +kernel)
  rcases drops_compose halfSeconds with ⟨nested, repeated⟩
  exact ⟨waits, order, more, nested 1 1.5 order, ((repeated 1 waits).2.1 more).2⟩

end FrameTiming.Window

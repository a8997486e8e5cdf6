import FrameTiming.Fps
import Mathlib.Data.List.Chain
import Mathlib.Data.List.Induction

/-! # Segments of one state

A series can be cut into segments of one state in many ways, down to one segment for each bucket. It
can be cut in one way only so that neighbours differ in their states, and any other way takes more
segments. A series that grows prolongs its last segment or opens a new one.
-/

namespace FrameTiming.Segment

/-- Neighbours have different states. -/
def Alternates (segments : List Segment) : Prop :=
  segments.IsChain fun left right => left.state ≠ right.state

/-! ## Joining -/

/-- A segment in front of others, one with the first of them if both are of one state. -/
def join (segment : Segment) : List Segment → List Segment
  | [] => [segment]
  | first :: others =>
      if first.state = segment.state then
        ⟨segment.state, segment.buckets ++ first.buckets⟩ :: others
      else
        segment :: first :: others

theorem ofBuckets_cons (bucket : Bucket) (rest : List Bucket) :
    ofBuckets (bucket :: rest) =
      join ⟨bucket.state, [(bucket.second, bucket.frameCount)]⟩ (ofBuckets rest) := by
  rw [ofBuckets]
  cases ofBuckets rest <;> rfl

theorem join_eq_cons_or_length_eq (segment : Segment) (others : List Segment) :
    join segment others = segment :: others ∨ (join segment others).length = others.length := by
  cases others with
  | nil => exact .inl rfl
  | cons first others =>
      rw [join]
      split
      · exact .inr rfl
      · exact .inl rfl

theorem join_of_alternates {segment : Segment} {others : List Segment}
    (alternates : Alternates (segment :: others)) : join segment others = segment :: others := by
  cases others with
  | nil => rfl
  | cons first others =>
      have differ := (List.isChain_cons_cons.mp alternates).1
      rw [join, if_neg differ.symm]

theorem alternates_join (segment : Segment) {others : List Segment}
    (alternates : Alternates others) : Alternates (join segment others) := by
  cases others with
  | nil => exact List.isChain_singleton _
  | cons first others =>
      rw [join]
      split
      · rename_i same
        cases others with
        | nil => exact List.isChain_singleton _
        | cons second others =>
            have parts := List.isChain_cons_cons.mp alternates
            exact List.isChain_cons_cons.mpr ⟨same ▸ parts.1, parts.2⟩
      · rename_i differ
        exact List.isChain_cons_cons.mpr ⟨Ne.symm differ, alternates⟩

/-- Joining twice is joining a longer segment. -/
theorem join_join (state : StateId) (front buckets : List (Int × Nat)) (others : List Segment) :
    join ⟨state, front⟩ (join ⟨state, buckets⟩ others) = join ⟨state, front ++ buckets⟩ others := by
  cases others with
  | nil => exact if_pos rfl
  | cons first others =>
      rw [join]
      split
      · rename_i same
        rw [join, if_pos rfl, join, if_pos same, List.append_assoc]
      · rename_i differ
        rw [join, if_pos rfl, join, if_neg differ]

/-- The buckets of one segment come into one segment. -/
theorem ofBuckets_toBuckets_append (segment : Segment) (filled : segment.buckets ≠ [])
    (rest : List Bucket) :
    ofBuckets (segment.toBuckets ++ rest) = join segment (ofBuckets rest) := by
  rcases segment with ⟨state, buckets⟩
  induction buckets with
  | nil => exact absurd rfl filled
  | cons first others induction =>
      rw [toBuckets, List.map_cons, List.cons_append, ofBuckets_cons]
      cases others with
      | nil => rfl
      | cons second others =>
          have joined := induction (List.cons_ne_nil _ _)
          rw [toBuckets] at joined
          rw [joined, join_join, List.singleton_append]

/-! ## Ways to cut a series -/

theorem flatMap_toBuckets_join (segment : Segment) (others : List Segment) :
    (join segment others).flatMap toBuckets = segment.toBuckets ++ others.flatMap toBuckets := by
  cases others with
  | nil => rfl
  | cons first others =>
      rw [join]
      split
      · rename_i same
        simp [toBuckets, same]
      · rfl

/-- Segments written out in a row are the series that they come from. -/
theorem flatMap_toBuckets_ofBuckets (series : List Bucket) :
    (ofBuckets series).flatMap toBuckets = series := by
  induction series with
  | nil => rfl
  | cons bucket rest induction =>
      rw [ofBuckets_cons, flatMap_toBuckets_join, induction]
      rfl

theorem filled_join {segment : Segment} {others : List Segment} (filled : segment.buckets ≠ [])
    (othersFilled : ∀ other ∈ others, other.buckets ≠ []) :
    ∀ part ∈ join segment others, part.buckets ≠ [] := by
  cases others with
  | nil => exact List.forall_mem_singleton.mpr filled
  | cons first others =>
      rw [join]
      split
      · refine List.forall_mem_cons.mpr ⟨List.append_ne_nil_of_left_ne_nil filled _, ?_⟩
        exact (List.forall_mem_cons.mp othersFilled).2
      · exact List.forall_mem_cons.mpr ⟨filled, othersFilled⟩

theorem filled_ofBuckets (series : List Bucket) :
    ∀ segment ∈ ofBuckets series, segment.buckets ≠ [] := by
  induction series with
  | nil => exact List.forall_mem_nil _
  | cons bucket rest induction =>
      rw [ofBuckets_cons]
      exact filled_join (List.cons_ne_nil _ _) induction

theorem alternates_ofBuckets (series : List Bucket) : Alternates (ofBuckets series) := by
  induction series with
  | nil => exact List.isChain_nil
  | cons bucket rest induction =>
      rw [ofBuckets_cons]
      exact alternates_join _ induction

/-- Segments that alternate are those of the series that they make up. -/
theorem ofBuckets_flatMap_toBuckets {segments : List Segment}
    (filled : ∀ segment ∈ segments, segment.buckets ≠ []) (alternates : Alternates segments) :
    ofBuckets (segments.flatMap toBuckets) = segments := by
  induction segments with
  | nil => rfl
  | cons segment others induction =>
      rw [List.forall_mem_cons] at filled
      rw [List.flatMap_cons, ofBuckets_toBuckets_append segment filled.1,
        induction filled.2 alternates.tail, join_of_alternates alternates]

/-- Segments of a series are no fewer than those that alternate, and more if they are others. -/
theorem eq_or_length_lt {segments : List Segment}
    (filled : ∀ segment ∈ segments, segment.buckets ≠ []) :
    ofBuckets (segments.flatMap toBuckets) = segments ∨
      (ofBuckets (segments.flatMap toBuckets)).length < segments.length := by
  induction segments with
  | nil => exact .inl rfl
  | cons segment others induction =>
      rw [List.forall_mem_cons] at filled
      rw [List.flatMap_cons, ofBuckets_toBuckets_append segment filled.1, List.length_cons]
      rcases induction filled.2 with same | fewer
      · rw [same]
        rcases join_eq_cons_or_length_eq segment others with apart | joined
        · exact .inl apart
        · exact .inr (by omega)
      · right
        rcases join_eq_cons_or_length_eq segment (ofBuckets (others.flatMap toBuckets)) with
          apart | joined
        · rw [apart, List.length_cons]
          omega
        · omega

/-! ## Growing series -/

/-- A bucket of the state of the last segment prolongs it. -/
theorem ofBuckets_concat_of_same {series : List Bucket} {front : List Segment} {last : Segment}
    (split : ofBuckets series = front ++ [last]) {bucket : Bucket}
    (same : last.state = bucket.state) :
    ofBuckets (series ++ [bucket]) =
      front ++ [⟨last.state, last.buckets ++ [(bucket.second, bucket.frameCount)]⟩] := by
  let longer : Segment := ⟨last.state, last.buckets ++ [(bucket.second, bucket.frameCount)]⟩
  have whole := flatMap_toBuckets_ofBuckets series
  have filled := filled_ofBuckets series
  have alternates := alternates_ofBuckets series
  rw [split] at whole filled alternates
  rw [List.forall_mem_append] at filled
  rw [Alternates, List.isChain_append] at alternates
  have longerWhole : (front ++ [longer]).flatMap toBuckets = series ++ [bucket] := by
    rw [← whole]
    simp [longer, toBuckets, same]
  rw [← longerWhole]
  apply ofBuckets_flatMap_toBuckets
  · refine List.forall_mem_append.mpr ⟨filled.1, List.forall_mem_singleton.mpr ?_⟩
    exact List.append_ne_nil_of_right_ne_nil _ (List.cons_ne_nil _ _)
  · exact List.isChain_append.mpr ⟨alternates.1, List.isChain_singleton _, by
      simpa using alternates.2.2⟩

/-- A bucket of another state opens a segment. -/
theorem ofBuckets_concat_of_other {series : List Bucket} {bucket : Bucket}
    (other : ∀ last ∈ (ofBuckets series).getLast?, last.state ≠ bucket.state) :
    ofBuckets (series ++ [bucket]) =
      ofBuckets series ++ [⟨bucket.state, [(bucket.second, bucket.frameCount)]⟩] := by
  let opened : Segment := ⟨bucket.state, [(bucket.second, bucket.frameCount)]⟩
  have openedWhole : (ofBuckets series ++ [opened]).flatMap toBuckets = series ++ [bucket] := by
    rw [List.flatMap_append, flatMap_toBuckets_ofBuckets]
    rfl
  rw [← openedWhole]
  apply ofBuckets_flatMap_toBuckets
  · refine List.forall_mem_append.mpr ⟨filled_ofBuckets series, ?_⟩
    exact List.forall_mem_singleton.mpr (List.cons_ne_nil _ _)
  · exact List.isChain_append.mpr ⟨alternates_ofBuckets series, List.isChain_singleton _, by
      simpa using other⟩

/-! ## Columns -/

/-- A segment in two columns of their own, one of seconds and one of frame counts. -/
structure Columns where
  state : StateId
  seconds : List Int
  counts : List Nat
deriving DecidableEq, Repr

def columns (segment : Segment) : Columns :=
  ⟨segment.state, segment.seconds, segment.counts⟩

namespace Columns

def toBuckets (columns : Columns) : List Bucket :=
  List.zipWith (fun second count => ⟨second, count, columns.state⟩) columns.seconds columns.counts

def toSegment (columns : Columns) : Segment :=
  ⟨columns.state, columns.seconds.zip columns.counts⟩

/-- The segments of a series that grows by a bucket. It prolongs the last segment if that has its
state and opens a new one if not. -/
def extend (segments : List Columns) (bucket : Bucket) : List Columns :=
  match segments.getLast? with
  | none => [⟨bucket.state, [bucket.second], [bucket.frameCount]⟩]
  | some last =>
      if last.state = bucket.state then
        segments.dropLast ++
          [⟨last.state, last.seconds ++ [bucket.second], last.counts ++ [bucket.frameCount]⟩]
      else
        segments ++ [⟨bucket.state, [bucket.second], [bucket.frameCount]⟩]

/-- Segments with rows, in columns of one length, that are a series when written out in a row. -/
structure Cut (series : List Bucket) (segments : List Columns) : Prop where
  filled : ∀ segment ∈ segments, segment.seconds ≠ []
  even : ∀ segment ∈ segments, segment.seconds.length = segment.counts.length
  whole : segments.flatMap toBuckets = series

end Columns

theorem toBuckets_columns (segment : Segment) : segment.columns.toBuckets = segment.toBuckets := by
  simp [columns, Columns.toBuckets, seconds, counts, toBuckets, List.zipWith_map]

theorem columns_toSegment {columns : Columns}
    (even : columns.seconds.length = columns.counts.length) :
    columns.toSegment.columns = columns := by
  rw [Segment.columns, seconds, counts, Columns.toSegment, List.map_fst_zip even.le,
    List.map_snd_zip even.ge]

theorem cut_map_columns {segments : List Segment}
    (filled : ∀ segment ∈ segments, segment.buckets ≠ []) :
    Columns.Cut (segments.flatMap toBuckets) (segments.map columns) := by
  constructor
  case filled => simpa [columns, seconds] using filled
  case even => simp [columns, seconds, counts]
  case whole => simp [List.flatMap_map, toBuckets_columns]

/-- Every cut of a series is one into segments. -/
theorem Columns.Cut.exists_segments {series : List Bucket} {cut : List Columns}
    (cuts : Columns.Cut series cut) :
    ∃ segments : List Segment, cut = segments.map columns ∧
      (∀ segment ∈ segments, segment.buckets ≠ []) ∧
      series = segments.flatMap Segment.toBuckets := by
  have same : cut = (cut.map Columns.toSegment).map columns := by
    rw [List.map_map]
    conv_lhs => rw [← List.map_id cut]
    exact List.map_congr_left fun columns member => (columns_toSegment (cuts.even _ member)).symm
  have filled := cuts.filled
  have whole := cuts.whole
  rw [same] at filled whole
  refine ⟨cut.map Columns.toSegment, same, ?_, ?_⟩
  · simpa [Segment.columns, Segment.seconds] using filled
  · rw [← whole, List.flatMap_map]
    simp only [toBuckets_columns]

theorem map_columns_ofBuckets_concat (series : List Bucket) (bucket : Bucket) :
    (ofBuckets (series ++ [bucket])).map columns =
      Columns.extend ((ofBuckets series).map columns) bucket := by
  rw [Columns.extend, List.getLast?_map]
  cases ends : (ofBuckets series).getLast? with
  | none =>
      rw [ofBuckets_concat_of_other (by simp [ends]), List.getLast?_eq_none_iff.mp ends]
      rfl
  | some last =>
      dsimp only [Option.map_some]
      split
      · rename_i same
        rcases List.getLast?_eq_some_iff.mp ends with ⟨front, split⟩
        rw [ofBuckets_concat_of_same split same, split]
        simp [columns, seconds, counts]
      · rename_i other
        have otherState : last.state ≠ bucket.state := other
        rw [ofBuckets_concat_of_other (by simpa [ends] using otherState)]
        simp [columns, seconds, counts]

/-- Cutting a whole series is cutting it as it grows. -/
theorem map_columns_ofBuckets (series : List Bucket) :
    (ofBuckets series).map columns = series.foldl Columns.extend [] := by
  induction series using List.reverseRecOn with
  | nil => rfl
  | append_singleton series bucket induction =>
      rw [map_columns_ofBuckets_concat, induction, List.foldl_concat]

/-! ## The segments of a series -/

/-- The segments that a series gives bucket by bucket cut it so that neighbours have different
states. Among the cuts of the series they are the only ones with this property, and any other cut
has more segments. -/
theorem segments_unique (series : List Bucket) :
    let segments := (ofBuckets series).map columns
    segments = series.foldl Columns.extend [] ∧
      Columns.Cut series segments ∧
      segments.IsChain (fun left right => left.state ≠ right.state) ∧
      (∀ other, Columns.Cut series other →
        other.IsChain (fun left right => left.state ≠ right.state) → other = segments) ∧
      ∀ other, Columns.Cut series other → other ≠ segments → segments.length < other.length := by
  intro segments
  refine ⟨map_columns_ofBuckets series, ?_, ?_, ?_, ?_⟩
  · have cut := cut_map_columns (filled_ofBuckets series)
    rwa [flatMap_toBuckets_ofBuckets] at cut
  · exact (List.isChain_map columns).mpr (alternates_ofBuckets series)
  · intro other cuts alternates
    rcases cuts.exists_segments with ⟨parts, rfl, filled, rfl⟩
    have same := ofBuckets_flatMap_toBuckets filled ((List.isChain_map columns).mp alternates)
    exact congrArg (List.map columns) same.symm
  · intro other cuts differs
    rcases cuts.exists_segments with ⟨parts, rfl, filled, rfl⟩
    rcases eq_or_length_lt filled with same | fewer
    · exact absurd (congrArg (List.map columns) same.symm) differs
    · rwa [List.length_map, List.length_map]

/-- A series that comes back to its first state. -/
private def returning : List Bucket :=
  [⟨0, 10, 0⟩, ⟨1, 12, 0⟩, ⟨2, 58, 1⟩, ⟨3, 9, 0⟩]

theorem segments_unique_of_returning :
    (ofBuckets returning).map columns =
        [⟨0, [0, 1], [10, 12]⟩, ⟨1, [2], [58]⟩, ⟨0, [3], [9]⟩] ∧
      ((ofBuckets returning).map columns).length <
        (returning.map fun bucket => (⟨bucket.state, [bucket.second], [bucket.frameCount]⟩ :
          Columns)).length := by
  have unique := (segments_unique returning).2.2.2
  constructor
  · symm
    apply unique.1
    · exact ⟨by decide, by decide, by decide⟩
    · decide
  · apply unique.2
    · exact ⟨by decide, by decide, by decide⟩
    · decide

end FrameTiming.Segment

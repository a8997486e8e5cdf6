import FrameTiming.Proofs.Delimited
import Mathlib.Data.List.Infix

/-! # Rows of a delimited file

Without quotes, the records of a file are its lines that are not blank, cut at commas. A record is
placed right behind the byte that ended the row above: line feeds between that byte and its row, of
blank lines or behind a carriage return, are not counted.
-/

namespace FrameTiming.Delimited

/-! ## Rows and gaps -/

/-- Only line ends: what the reader passes over in front of a row. -/
def Blank (gap : List UInt8) : Prop :=
  ∀ byte ∈ gap, isLineEnd byte = true

/-- The bytes of a line that is not blank. -/
structure IsRow (row : List UInt8) : Prop where
  present : row ≠ []
  unbroken : ∀ byte ∈ row, isLineEnd byte = false

/-- The last line of these bytes, if there is any, is not blank and not closed yet. -/
def InRow (above : List UInt8) : Prop :=
  ∀ byte ∈ above.getLast?, isLineEnd byte = false

theorem IsRow.inRow {row : List UInt8} (isRow : IsRow row) (gap : List UInt8) :
    InRow (gap ++ row) := by
  intro byte member
  rw [List.getLast?_append_of_ne_nil _ isRow.present] at member
  exact isRow.unbroken byte (List.mem_of_getLast? member)

theorem InRow.of_cons {byte : UInt8} {above : List UInt8} (inRow : InRow (byte :: above)) :
    InRow above := by
  intro last member
  apply inRow last
  rw [List.getLast?_cons, Option.mem_def.mp member]
  rfl

/-- The longest front part of some bytes with a property. -/
theorem exists_span (test : UInt8 → Bool) (bytes : List UInt8) :
    ∃ front back, bytes = front ++ back ∧ (∀ byte ∈ front, test byte = true) ∧
      ∀ byte ∈ back.head?, test byte = false := by
  refine ⟨bytes.takeWhile test, bytes.dropWhile test, List.takeWhile_append_dropWhile.symm,
    List.all_eq_true.mp List.all_takeWhile, ?_⟩
  intro byte member
  have stops := List.head?_dropWhile_not test bytes
  rw [Option.mem_def.mp member] at stops
  simpa using stops

/-- A file is a sequence of rows, each with a gap in front of it, and a gap at its end. -/
theorem rows_induction {motive : List UInt8 → Prop}
    (blank : ∀ gap, Blank gap → motive gap)
    (last : ∀ gap row, Blank gap → IsRow row → motive (gap ++ row))
    (more : ∀ gap row lineEnd rest, Blank gap → IsRow row → isLineEnd lineEnd = true →
      motive rest → motive (gap ++ row ++ lineEnd :: rest))
    (bytes : List UInt8) : motive bytes := by
  rcases exists_span isLineEnd bytes with ⟨gap, behind, whole, gapBlank, stops⟩
  rcases exists_span (!isLineEnd ·) behind with ⟨row, below, cut, unbroken, closes⟩
  simp only [Bool.not_eq_true', Bool.not_eq_false'] at unbroken closes
  rw [cut] at whole stops
  rcases row with _ | ⟨byte, row⟩
  · rcases below with _ | ⟨lineEnd, rest⟩
    · rw [whole, List.append_nil, List.append_nil]
      exact blank gap gapBlank
    · have inside := stops lineEnd rfl
      rw [closes lineEnd rfl] at inside
      cases inside
  · have isRow : IsRow (byte :: row) := ⟨List.cons_ne_nil _ _, unbroken⟩
    rw [← List.append_assoc] at whole
    rcases below with _ | ⟨lineEnd, rest⟩
    · rw [whole, List.append_nil]
      exact last gap _ gapBlank isRow
    · have shorter : rest.length < bytes.length := by
        rw [whole, List.length_append, List.length_cons]
        omega
      rw [whole]
      exact more gap _ lineEnd rest gapBlank isRow (closes lineEnd rfl)
        (rows_induction blank last more rest)
termination_by bytes.length

/-! ## Scanning rows -/

/-- The places that a file without quotes leads to. -/
def Place.Unquoted (place : Place) : Prop :=
  place = .before ∨ place = .fieldStart ∨ place = .plain

theorem isLineEnd_iff {byte : UInt8} : isLineEnd byte = true ↔ byte = 0x0a ∨ byte = 0x0d := by
  simp [isLineEnd]

section Scanning

variable {place : Place} {start position : Position} {done : List (List UInt8)}
  {field : List UInt8}

/-! One byte at a time. -/

theorem scan_pass {byte : UInt8} {other : Place} (moved : place.move byte = .pass other)
    (rest : List UInt8) :
    scan place start position done field (byte :: rest) =
      scan other start (position.after byte) done field rest := by
  rw [scan, moved]

theorem scan_keep {byte : UInt8} {other : Place} (moved : place.move byte = .keep other)
    (rest : List UInt8) :
    scan place start position done field (byte :: rest) =
      scan other start (position.after byte) done (byte :: field) rest := by
  rw [scan, moved]

theorem scan_endField {byte : UInt8} (moved : place.move byte = .endField) (rest : List UInt8) :
    scan place start position done field (byte :: rest) =
      scan .fieldStart start (position.after byte) (field.reverse :: done) [] rest := by
  rw [scan, moved]

theorem scan_endRecord {byte : UInt8} (moved : place.move byte = .endRecord) (rest : List UInt8) :
    scan place start position done field (byte :: rest) =
      ⟨(field.reverse :: done).reverse, start⟩ ::
        scan .before (position.after byte) (position.after byte) [] [] rest := by
  rw [scan, moved]

theorem scan_nil (inside : place ≠ .before) :
    scan place start position done field [] = [⟨(field.reverse :: done).reverse, start⟩] := by
  cases place with
  | before => exact absurd rfl inside
  | fieldStart | plain | quoted | afterQuote => rfl

theorem Place.move_before {byte : UInt8} (ends : isLineEnd byte = true) :
    Place.before.move byte = .pass .before := by
  simp [Place.move, ends]

namespace Place.Unquoted

variable {byte : UInt8} (opens : place.Unquoted)
include opens

theorem move_comma (comma : byte = 0x2c) : place.move byte = .endField := by
  subst comma
  rcases opens with rfl | rfl | rfl <;> rfl

theorem move_plain (unquoted : 0x22 ≠ byte) (inside : isLineEnd byte = false)
    (noComma : byte ≠ 0x2c) : place.move byte = .keep .plain := by
  rcases opens with rfl | rfl | rfl <;>
    simp [Place.move, Move.unquoted, unquoted.symm, inside, noComma]

theorem move_lineEnd (ends : isLineEnd byte = true) (inside : place ≠ .before) :
    place.move byte = .endRecord := by
  rcases opens with rfl | rfl | rfl
  · exact absurd rfl inside
  all_goals rcases isLineEnd_iff.mp ends with rfl | rfl <;> rfl

end Place.Unquoted

/-! Many bytes at a time. -/

theorem scan_blank {gap : List UInt8} (blank : Blank gap) (rest : List UInt8) :
    scan .before start position done field (gap ++ rest) =
      scan .before start (gap.foldl Position.after position) done field rest := by
  induction gap generalizing position with
  | nil => rfl
  | cons byte gap induction =>
      rw [Blank, List.forall_mem_cons] at blank
      rw [List.cons_append, scan_pass (Place.move_before blank.1)]
      exact induction blank.2

/-- A row is cut at its commas, and it is placed where the reader stood before it. -/
theorem scan_row {row : List UInt8} (unquoted : 0x22 ∉ row)
    (unbroken : ∀ byte ∈ row, isLineEnd byte = false) (opens : place.Unquoted)
    (inside : place = .before → row ≠ []) :
    scan place start position done field row =
      [⟨done.reverse ++ (row.splitOn 0x2c).modifyHead (field.reverse ++ ·), start⟩] := by
  induction row generalizing place position done field with
  | nil =>
      rw [scan_nil fun before => inside before rfl]
      simp
  | cons byte row induction =>
      rw [List.mem_cons, not_or] at unquoted
      rw [List.forall_mem_cons] at unbroken
      have cut : (byte :: row).splitOn 0x2c = if byte = 0x2c then [] :: row.splitOn 0x2c
          else (row.splitOn 0x2c).modifyHead (byte :: ·) := by
        simp [List.splitOn, List.splitOnP_cons_eq_if_modifyHead]
      rw [cut]
      by_cases comma : byte = 0x2c
      · have same : (fun part : List UInt8 => part) = id := rfl
        rw [scan_endField (opens.move_comma comma), if_pos comma,
          induction unquoted.2 unbroken.2 (.inr (.inl rfl)) (by simp)]
        simp [same]
      · rw [scan_keep (opens.move_plain unquoted.1 unbroken.1 comma), if_neg comma,
          induction unquoted.2 unbroken.2 (.inr (.inr rfl)) (by simp), List.modifyHead_modifyHead]
        simp [Function.comp_def]

/-- A line end behind an open row cuts a file in two. -/
theorem scan_append {above : List UInt8} (unquoted : 0x22 ∉ above) (inRow : InRow above)
    {lineEnd : UInt8} (ends : isLineEnd lineEnd = true) (rest : List UInt8)
    (opens : place.Unquoted) (inside : place = .before → above ≠ []) :
    scan place start position done field (above ++ lineEnd :: rest) =
      scan place start position done field above ++
        scan .before ((above ++ [lineEnd]).foldl Position.after position)
          ((above ++ [lineEnd]).foldl Position.after position) [] [] rest := by
  induction above generalizing place start position done field with
  | nil =>
      have opened : place ≠ .before := fun before => inside before rfl
      rw [List.nil_append, scan_endRecord (opens.move_lineEnd ends opened), scan_nil opened]
      rfl
  | cons byte above induction =>
      rw [List.mem_cons, not_or] at unquoted
      rw [List.cons_append, List.cons_append, List.foldl_cons]
      have behind := inRow.of_cons
      cases closes : isLineEnd byte with
      | true =>
          have more : above ≠ [] := by
            rintro rfl
            have stays := inRow byte rfl
            rw [closes] at stays
            cases stays
          by_cases before : place = .before
          · subst before
            rw [scan_pass (Place.move_before closes), scan_pass (Place.move_before closes)]
            exact induction unquoted.2 behind opens fun _ => more
          · have moved := opens.move_lineEnd closes before
            rw [scan_endRecord moved, scan_endRecord moved,
              induction unquoted.2 behind (.inl rfl) fun _ => more]
            rfl
      | false =>
          by_cases comma : byte = 0x2c
          · have moved := opens.move_comma comma
            rw [scan_endField moved, scan_endField moved]
            exact induction unquoted.2 behind (.inr (.inl rfl)) (by simp)
          · have moved := opens.move_plain unquoted.1 closes comma
            rw [scan_keep moved, scan_keep moved]
            exact induction unquoted.2 behind (.inr (.inr rfl)) (by simp)

end Scanning

/-! ## Rows of a file -/

/-- A row behind a gap, up to its end. -/
structure RowBehind (gap row below : List UInt8) : Prop where
  blank : Blank gap
  isRow : IsRow row
  stops : ∀ byte ∈ below.head?, isLineEnd byte = true

/-- A row of a file that is not its first one. `lineEnd` is the byte that ended the row above, and
`gap` holds the line ends between that byte and the row. -/
structure RowBelow (bytes above : List UInt8) (lineEnd : UInt8) (gap row below : List UInt8) : Prop
    extends RowBehind gap row below where
  whole : bytes = above ++ lineEnd :: (gap ++ row ++ below)
  header : records above ≠ []
  inRow : InRow above
  ends : isLineEnd lineEnd = true

theorem rowBelow_iff {bytes above gap row below : List UInt8} {lineEnd : UInt8} :
    RowBelow bytes above lineEnd gap row below ↔
      bytes = above ++ lineEnd :: (gap ++ row ++ below) ∧ records above ≠ [] ∧
        above.getLast?.all (!isLineEnd ·) = true ∧ isLineEnd lineEnd = true ∧
        gap.all isLineEnd = true ∧ row ≠ [] ∧ row.all (!isLineEnd ·) = true ∧
        below.head?.all isLineEnd = true := by
  simp only [List.all_eq_true, Option.all_eq_true, Bool.not_eq_true']
  constructor
  · rintro ⟨⟨blank, ⟨present, unbroken⟩, stops⟩, whole, header, inRow, ends⟩
    exact ⟨whole, header, inRow, ends, blank, present, unbroken, stops⟩
  · rintro ⟨whole, header, inRow, ends, blank, present, unbroken, stops⟩
    exact ⟨⟨blank, ⟨present, unbroken⟩, stops⟩, whole, header, inRow, ends⟩

instance (bytes above : List UInt8) (lineEnd : UInt8) (gap row below : List UInt8) :
    Decidable (RowBelow bytes above lineEnd gap row below) :=
  decidable_of_iff' _ rowBelow_iff

/-- The number of the line that starts behind these bytes, counted by line feeds. -/
def lineBehind (bytes : List UInt8) : ℕ :=
  bytes.count 0x0a + 1

theorem scan_gap_row {gap row : List UInt8} (blank : Blank gap) (isRow : IsRow row)
    (unquoted : 0x22 ∉ row) (start position : Position) :
    scan .before start position [] [] (gap ++ row) = [⟨row.splitOn 0x2c, start⟩] := by
  have same : (fun part : List UInt8 => part) = id := rfl
  rw [scan_blank blank, scan_row unquoted isRow.unbroken (.inl rfl) fun _ => isRow.present]
  simp [same]

theorem scan_gap_row_append {gap row : List UInt8} (blank : Blank gap) (isRow : IsRow row)
    (unquoted : 0x22 ∉ gap ++ row) {lineEnd : UInt8} (ends : isLineEnd lineEnd = true)
    (rest : List UInt8) (start position : Position) :
    scan .before start position [] [] (gap ++ row ++ lineEnd :: rest) =
      ⟨row.splitOn 0x2c, start⟩ ::
        scan .before ((gap ++ row ++ [lineEnd]).foldl Position.after position)
          ((gap ++ row ++ [lineEnd]).foldl Position.after position) [] [] rest := by
  have present : gap ++ row ≠ [] := List.append_ne_nil_of_right_ne_nil _ isRow.present
  rw [scan_append unquoted (isRow.inRow gap) ends rest (.inl rfl) fun _ => present,
    scan_gap_row blank isRow (fun member => unquoted (List.mem_append_right _ member)),
    List.singleton_append]

theorem RowBehind.exists_scan_eq {gap row below : List UInt8} (behind : RowBehind gap row below)
    (unquoted : 0x22 ∉ gap ++ row) (start position : Position) :
    ∃ after, scan .before start position [] [] (gap ++ row ++ below) =
      ⟨row.splitOn 0x2c, start⟩ :: after := by
  rcases below with _ | ⟨lineEnd, rest⟩
  · rw [List.append_nil, scan_gap_row behind.blank behind.isRow
      fun member => unquoted (List.mem_append_right _ member)]
    exact ⟨[], rfl⟩
  · rw [scan_gap_row_append behind.blank behind.isRow unquoted (behind.stops lineEnd rfl)]
    exact ⟨_, rfl⟩

/-- A record is a row. The first one is placed at the start, the others right behind the byte that
ended the row above. -/
theorem exists_row_of_scan {bytes : List UInt8} (unquoted : 0x22 ∉ bytes)
    {start position : Position} {before after : List RawRecord} {raw : RawRecord}
    (scanned : scan .before start position [] [] bytes = before ++ raw :: after) :
    (before = [] ∧ ∃ gap row below, bytes = gap ++ row ++ below ∧ RowBehind gap row below ∧
      raw = ⟨row.splitOn 0x2c, start⟩) ∨
    ∃ above lineEnd gap row below, bytes = above ++ lineEnd :: (gap ++ row ++ below) ∧
      scan .before start position [] [] above = before ∧ above ≠ [] ∧ InRow above ∧
      isLineEnd lineEnd = true ∧ RowBehind gap row below ∧
      raw = ⟨row.splitOn 0x2c, (above ++ [lineEnd]).foldl Position.after position⟩ := by
  induction bytes using rows_induction generalizing start position before with
  | blank gap blank =>
      have none := @scan_blank start position [] [] gap blank []
      rw [List.append_nil, scanned] at none
      simp [scan] at none
  | last gap row blank isRow =>
      have rowUnquoted : 0x22 ∉ row := fun member => unquoted (List.mem_append_right _ member)
      rw [scan_gap_row blank isRow rowUnquoted] at scanned
      rcases before with _ | ⟨first, before⟩
      · cases scanned
        exact .inl ⟨rfl, gap, row, [], (List.append_nil _).symm, ⟨blank, isRow, by simp⟩, rfl⟩
      · simp at scanned
  | more gap row lineEnd rest blank isRow ends induction =>
      have rowUnquoted : 0x22 ∉ gap ++ row := fun member => unquoted (List.mem_append_left _ member)
      have restUnquoted : 0x22 ∉ rest :=
        fun member => unquoted (List.mem_append_right _ (List.mem_cons_of_mem _ member))
      rw [scan_gap_row_append blank isRow rowUnquoted ends] at scanned
      rcases before with _ | ⟨first, before⟩
      · cases scanned
        exact .inl ⟨rfl, gap, row, _, rfl, ⟨blank, isRow, by simpa using ends⟩, rfl⟩
      · have present : gap ++ row ≠ [] := List.append_ne_nil_of_right_ne_nil _ isRow.present
        rw [List.cons_append, List.cons.injEq] at scanned
        rcases scanned with ⟨rfl, scanned⟩
        right
        rcases induction restUnquoted scanned with
          ⟨rfl, nextGap, nextRow, below, rfl, behind, same⟩ |
          ⟨above, lastEnd, nextGap, nextRow, below, rfl, aboveScanned, more, inRow, closes, behind,
            same⟩
        · exact ⟨gap ++ row, lineEnd, nextGap, nextRow, below, rfl,
            scan_gap_row blank isRow (fun member => rowUnquoted (List.mem_append_right _ member)) _ _,
            present, isRow.inRow gap, ends, behind, same⟩
        · refine ⟨gap ++ row ++ lineEnd :: above, lastEnd, nextGap, nextRow, below, ?_, ?_, ?_, ?_,
            closes, behind, ?_⟩
          · simp
          · rw [scan_gap_row_append blank isRow rowUnquoted ends, aboveScanned]
          · simp
          · intro byte member
            rw [List.getLast?_append_of_ne_nil _ (List.cons_ne_nil _ _),
              ← List.singleton_append, List.getLast?_append_of_ne_nil _ more] at member
            exact inRow byte member
          · rw [same]
            simp [List.foldl_append]

/-- The records of a file are those behind its mark, and so are those of each front part of it. -/
theorem exists_body (bytes : List UInt8) :
    ∃ mark body position, bytes = mark ++ body ∧ (∀ byte ∈ mark, isLineEnd byte = false) ∧
      position.line = 1 ∧ ∀ above, above <+: body →
        records (mark ++ above) = scan .before .start position [] [] above := by
  by_cases marked : byteOrderMark <+: bytes
  · rcases marked with ⟨body, rfl⟩
    refine ⟨byteOrderMark, body, ⟨byteOrderMark.length, 1⟩, rfl, ?_, rfl, ?_⟩
    · simp [byteOrderMark, isLineEnd]
    intro above _
    have starts : byteOrderMark.isPrefixOf (byteOrderMark ++ above) = true :=
      List.isPrefixOf_iff_prefix.mpr (List.prefix_append _ _)
    rw [records, if_pos starts, List.drop_left]
  · refine ⟨[], bytes, .start, rfl, by simp, rfl, ?_⟩
    intro above front
    have unmarked : ¬byteOrderMark.isPrefixOf above = true := by
      rw [List.isPrefixOf_iff_prefix]
      exact fun starts => marked (starts.trans front)
    rw [List.nil_append, records, if_neg unmarked]

theorem line_behind {mark : List UInt8} (unbroken : ∀ byte ∈ mark, isLineEnd byte = false)
    {position : Position} (first : position.line = 1) (above : List UInt8) :
    (above.foldl Position.after position).line = lineBehind (mark ++ above) := by
  have none : mark.count 0x0a = 0 := List.count_eq_zero.mpr fun member => by
    have inside := unbroken 0x0a member
    exact absurd inside (by decide)
  rw [line_foldl_after, first, lineBehind, List.count_append, none]
  omega

/-- The records of a file behind an open row, from the byte that ends it on. -/
theorem records_append {above : List UInt8} (unquoted : 0x22 ∉ above) (header : records above ≠ [])
    (inRow : InRow above) {lineEnd : UInt8} (ends : isLineEnd lineEnd = true)
    (rest : List UInt8) :
    ∃ next : Position, next.line = lineBehind (above ++ [lineEnd]) ∧
      records (above ++ lineEnd :: rest) = records above ++ scan .before next next [] [] rest := by
  rcases exists_body (above ++ lineEnd :: rest) with ⟨mark, body, position, whole, unbroken, first,
    recordsOf⟩
  have split : ∃ part, above = mark ++ part ∧ body = part ++ lineEnd :: rest := by
    rcases List.append_eq_append_iff.mp whole with ⟨part, same, tail⟩ | ⟨part, same, tail⟩
    · rcases part with _ | ⟨byte, part⟩
      · exact ⟨[], by simpa using same.symm, tail.symm⟩
      · rw [List.cons_append, List.cons.injEq] at tail
        have inside := unbroken lineEnd (by rw [same, tail.1]; simp)
        rw [ends] at inside
        cases inside
    · exact ⟨part, same, tail⟩
  rcases split with ⟨part, rfl, rfl⟩
  have partUnquoted : 0x22 ∉ part := fun member => unquoted (List.mem_append_right _ member)
  have present : part ≠ [] := by
    rintro rfl
    rw [recordsOf [] (List.nil_prefix)] at header
    exact header rfl
  have partInRow : InRow part := by
    intro byte member
    apply inRow byte
    rwa [List.getLast?_append_of_ne_nil _ present]
  refine ⟨(part ++ [lineEnd]).foldl Position.after position, ?_, ?_⟩
  · rw [line_behind unbroken first, List.append_assoc]
  · rw [whole, recordsOf _ (List.prefix_refl _), recordsOf part (List.prefix_append _ _)]
    exact scan_append partUnquoted partInRow ends rest (.inl rfl) fun _ => present

/-- Every record behind the first one is a row of the file below the first one. -/
theorem exists_rowBelow {bytes : List UInt8} (unquoted : 0x22 ∉ bytes)
    {before after : List RawRecord} {raw : RawRecord}
    (found : records bytes = before ++ raw :: after) (header : before ≠ []) :
    ∃ above lineEnd gap row below, RowBelow bytes above lineEnd gap row below ∧
      records above = before ∧ raw.fields = row.splitOn 0x2c ∧
      raw.position.line = lineBehind (above ++ [lineEnd]) := by
  rcases exists_body bytes with ⟨mark, body, position, rfl, unbroken, first, recordsOf⟩
  have bodyUnquoted : 0x22 ∉ body := fun member => unquoted (List.mem_append_right _ member)
  rw [recordsOf body (List.prefix_refl _)] at found
  rcases exists_row_of_scan bodyUnquoted found with ⟨none, -⟩ |
    ⟨part, lineEnd, gap, row, below, rfl, scanned, present, inRow, ends, behind, rfl⟩
  · exact absurd none header
  · rw [← recordsOf part (List.prefix_append _ _)] at scanned
    refine ⟨mark ++ part, lineEnd, gap, row, below, ⟨behind, by simp, ?_, ?_, ends⟩, scanned, rfl,
      ?_⟩
    · rwa [scanned]
    · intro byte member
      rw [List.getLast?_append_of_ne_nil _ present] at member
      exact inRow byte member
    · rw [line_behind unbroken first, List.append_assoc]

/-- Every row of a file below its first one is a record behind those of the rows above. -/
theorem RowBelow.exists_record {bytes above gap row below : List UInt8} {lineEnd : UInt8}
    (found : RowBelow bytes above lineEnd gap row below) (unquoted : 0x22 ∉ bytes) :
    ∃ raw after, records bytes = records above ++ raw :: after ∧
      raw.fields = row.splitOn 0x2c ∧ raw.position.line = lineBehind (above ++ [lineEnd]) := by
  have aboveUnquoted : 0x22 ∉ above := fun member => unquoted (by simp [found.whole, member])
  have rowUnquoted : 0x22 ∉ gap ++ row := by
    intro member
    rcases List.mem_append.mp member with inGap | inRow
    · exact unquoted (by simp [found.whole, inGap])
    · exact unquoted (by simp [found.whole, inRow])
  rcases records_append aboveUnquoted found.header found.inRow found.ends (gap ++ row ++ below) with
    ⟨next, line, joined⟩
  rcases found.toRowBehind.exists_scan_eq rowUnquoted next next with ⟨after, scanned⟩
  rw [found.whole, joined, scanned]
  exact ⟨_, after, rfl, rfl, line⟩

/-! ## Lines -/

/-- Lines end in line feeds, perhaps behind a carriage return: there is no such return elsewhere. -/
def PairedReturns (bytes : List UInt8) : Prop :=
  ∀ rest ∈ bytes.tails, rest.head? = some 0x0d → rest.tail.head? = some 0x0a

instance (bytes : List UInt8) : Decidable (PairedReturns bytes) :=
  inferInstanceAs (Decidable (∀ rest ∈ _, _))

theorem lineBehind_gap (above : List UInt8) (lineEnd : UInt8) (gap : List UInt8) :
    lineBehind (above ++ lineEnd :: gap) = lineBehind (above ++ [lineEnd]) + gap.count 0x0a := by
  rw [← List.singleton_append, ← List.append_assoc, lineBehind, lineBehind, List.count_append]
  omega

/-- The second byte of a line end in front of a row belongs to the gap. -/
theorem RowBelow.mem_gap_of_return {bytes above gap row below : List UInt8} {lineEnd : UInt8}
    (found : RowBelow bytes above lineEnd gap row below) (paired : PairedReturns bytes)
    (returned : 0x0d ∈ lineEnd :: gap) : 0x0a ∈ gap := by
  rcases List.append_of_mem returned with ⟨front, back, split⟩
  have suffix : 0x0d :: (back ++ row ++ below) <:+ bytes := by
    refine ⟨above ++ front, ?_⟩
    have parts : bytes = above ++ (lineEnd :: gap) ++ row ++ below := by simp [found.whole]
    rw [parts, split]
    simp
  have follows := paired _ ((List.mem_tails _ _).mpr suffix) rfl
  rcases back with _ | ⟨byte, back⟩
  · rcases List.exists_cons_of_ne_nil found.isRow.present with ⟨first, rest, rfl⟩
    cases follows
    exact absurd (found.isRow.unbroken 0x0a List.mem_cons_self) (by decide)
  · cases follows
    rcases front with _ | ⟨first, front⟩
    · rw [List.nil_append, List.cons.injEq] at split
      rw [split.2]
      exact List.mem_cons_self
    · rw [List.cons_append, List.cons.injEq] at split
      rw [split.2]
      simp

theorem RowBelow.lineBehind_eq_iff {bytes above gap row below : List UInt8} {lineEnd : UInt8}
    (found : RowBelow bytes above lineEnd gap row below) (paired : PairedReturns bytes) :
    lineBehind (above ++ [lineEnd]) = lineBehind (above ++ lineEnd :: gap) ↔
      lineEnd = 0x0a ∧ gap = [] := by
  constructor
  · intro same
    rw [lineBehind_gap above lineEnd gap, Nat.left_eq_add, List.count_eq_zero] at same
    have never : 0x0d ∉ lineEnd :: gap := mt (found.mem_gap_of_return paired) same
    rw [List.mem_cons, not_or] at never
    constructor
    · exact (isLineEnd_iff.mp found.ends).resolve_right (Ne.symm never.1)
    · refine List.eq_nil_iff_forall_not_mem.mpr fun byte member => ?_
      rcases isLineEnd_iff.mp (found.blank byte member) with rfl | rfl
      · exact same member
      · exact never.2 member
  · rintro ⟨-, rfl⟩
    rfl

theorem RawRecord.decode_eq_ok_iff {index : ℕ} {raw : RawRecord} {record : Record} :
    raw.decode index = .ok record ↔
      decodeFields 0 raw.fields = .ok record.fields ∧ record.line = raw.position.line := by
  rcases record with ⟨fields, line⟩
  rw [decode]
  cases decodeFields 0 raw.fields with
  | error place => simp
  | ok texts => simp [eq_comm]

end FrameTiming.Delimited

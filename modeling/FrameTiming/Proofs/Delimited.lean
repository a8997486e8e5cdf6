import FrameTiming.Delimited.Reader
import FrameTiming.Delimited.Writer
import FrameTiming.Proofs.Number.Literal

/-! # Reading what was written

Records whose fields are filled with plain characters come back as they were written, each on the
line of its number.
-/

namespace FrameTiming.Delimited

open FrameTiming.Text
open Number (Numeral Integer)

/-! ## Characters -/

/-- A character of ASCII that is no blank, no quote and no comma. -/
def Plain (char : Char) : Prop :=
  0x20 < char.toNat ∧ char.toNat < 0x7f ∧ char ≠ ',' ∧ char ≠ '"'

instance (char : Char) : Decidable (Plain char) :=
  inferInstanceAs (Decidable (_ ∧ _))

namespace Plain

variable {char : Char}

theorem encode_eq (plain : Plain char) : String.utf8EncodeChar char = [char.toUInt8] := by
  apply String.utf8EncodeChar_eq_singleton
  rw [Char.utf8Size_eq_one_iff, UInt32.le_iff_toNat_le]
  exact Nat.le_trans (Nat.le_of_lt plain.2.1) (by decide)

theorem toNat_byte (plain : Plain char) : char.toUInt8.toNat = char.toNat := by
  rw [Char.toUInt8, UInt32.toNat_toUInt8]
  exact Nat.mod_eq_of_lt (Nat.lt_trans plain.2.1 (by decide))

theorem byte_ne (plain : Plain char) {other : Char} (differs : char ≠ other)
    (small : other.toNat < 256) : char.toUInt8 ≠ other.toUInt8 := by
  intro same
  apply differs
  have codes := congrArg UInt8.toNat same
  rw [plain.toNat_byte, Char.toUInt8, UInt32.toNat_toUInt8] at codes
  exact Char.toNat_inj.mp (codes.trans (Nat.mod_eq_of_lt small))

theorem isBlankByte_eq (plain : Plain char) : isBlankByte char.toUInt8 = false := by
  have code := plain.toNat_byte
  have large := plain.1
  simp only [isBlankByte, Bool.or_eq_false_iff, decide_eq_false_iff_not, ← UInt8.toNat_inj, code]
  simp only [UInt8.reduceToNat]
  omega

theorem isBlank_eq (plain : Plain char) : isBlank char = false := by
  have large := plain.1
  have small := plain.2.1
  simp only [isBlank, Bool.or_eq_false_iff, Bool.and_eq_false_iff, decide_eq_false_iff_not]
  omega

theorem isLineEnd_eq (plain : Plain char) : isLineEnd char.toUInt8 = false := by
  have code := plain.toNat_byte
  have large := plain.1
  simp only [isLineEnd, Bool.or_eq_false_iff, decide_eq_false_iff_not, ← UInt8.toNat_inj, code]
  simp only [UInt8.reduceToNat]
  omega

/-- Wherever a field may go on, a plain character belongs to it. -/
theorem move_eq (plain : Plain char) {place : Place}
    (continues : place = .before ∨ place = .fieldStart ∨ place = .plain) :
    place.move char.toUInt8 = .keep .plain := by
  have noComma : char.toUInt8 ≠ 0x2c := plain.byte_ne plain.2.2.1 (by decide)
  have noQuote : char.toUInt8 ≠ 0x22 := plain.byte_ne plain.2.2.2 (by decide)
  rcases continues with rfl | rfl | rfl <;>
    simp [Place.move, Move.unquoted, plain.isLineEnd_eq, noComma, noQuote]

end Plain

variable {text : List Char}

theorem encode_append (left right : List Char) :
    Utf8.encode (left ++ right) = Utf8.encode left ++ Utf8.encode right :=
  List.flatMap_append

theorem encode_of_plain (plain : ∀ char ∈ text, Plain char) :
    Utf8.encode text = text.map Char.toUInt8 := by
  induction text with
  | nil => rfl
  | cons char rest induction =>
      rw [List.forall_mem_cons] at plain
      rw [Utf8.encode, List.flatMap_cons, plain.1.encode_eq, List.map_cons]
      exact congrArg (char.toUInt8 :: ·) (induction plain.2)

theorem decode_encode_of_plain (plain : ∀ char ∈ text, Plain char) (offset : ℕ) :
    Utf8.decodeFrom offset (Utf8.encode text) = .ok text := by
  rw [encode_of_plain plain]
  induction text generalizing offset with
  | nil => rfl
  | cons char rest induction =>
      rw [List.forall_mem_cons] at plain
      have code := plain.1.toNat_byte
      have ascii : char.toUInt8 < 0x80 := by
        rw [UInt8.lt_iff_toNat_lt, code]
        exact Nat.lt_trans plain.1.2.1 (by decide)
      have same : Char.ofUInt8 char.toUInt8 = char := by
        rw [← Char.toNat_inj]
        exact code
      rw [List.map_cons, Utf8.decodeFrom.eq_def]
      dsimp only
      rw [if_pos ascii, induction plain.2, same]
      rfl

theorem trimBytes_encode_of_plain (plain : ∀ char ∈ text, Plain char) :
    trimBytes (Utf8.encode text) = Utf8.encode text := by
  have kept : ∀ bytes : List UInt8, (∀ byte ∈ bytes, isBlankByte byte = false) →
      bytes.dropWhile isBlankByte = bytes := by
    intro bytes filled
    cases bytes with
    | nil => rfl
    | cons byte rest => rw [List.dropWhile_cons_of_neg (by simp [filled byte (by simp)])]
  have filled : ∀ byte ∈ Utf8.encode text, isBlankByte byte = false := by
    intro byte member
    rw [encode_of_plain plain] at member
    rcases List.mem_map.mp member with ⟨char, inside, rfl⟩
    exact (plain char inside).isBlankByte_eq
  rw [trimBytes, kept _ filled, kept _ fun byte member => filled byte (List.mem_reverse.mp member),
    List.reverse_reverse]

theorem not_mem_of_plain (plain : ∀ char ∈ text, Plain char) {char : Char}
    (special : ¬Plain char) : char ∉ text :=
  fun inside => special (plain char inside)

theorem trim_of_plain (plain : ∀ char ∈ text, Plain char) : trim text = text :=
  trim_eq_self (fun first member => (plain first (List.mem_of_head? member)).isBlank_eq)
    fun last member => (plain last (List.mem_of_getLast? member)).isBlank_eq

/-! ## Numbers -/

theorem plain_of_isAlphanum {char : Char} (alphanum : char.isAlphanum = true) : Plain char := by
  have kinds : (decide ('A'.val ≤ char.val ∧ char.val ≤ 'Z'.val) ||
      (decide ('a'.val ≤ char.val) && decide (char.val ≤ 'z'.val)) ||
      (decide ('0'.val ≤ char.val) && decide (char.val ≤ '9'.val))) = true := alphanum
  have ranges : 65 ≤ char.toNat ∧ char.toNat ≤ 90 ∨ 97 ≤ char.toNat ∧ char.toNat ≤ 122 ∨
      48 ≤ char.toNat ∧ char.toNat ≤ 57 := by
    simpa [UInt32.le_iff_toNat_le, or_assoc] using kinds
  refine ⟨by omega, by omega, ?_, ?_⟩
  · rintro rfl
    exact absurd alphanum (by decide)
  · rintro rfl
    exact absurd alphanum (by decide)

theorem plain_of_numeral {base value : ℕ} (small : base ≤ 16)
    (numeral : Numeral base text value) : ∀ char ∈ text, Plain char :=
  fun char member => plain_of_isAlphanum (numeral.isAlphanum small char member)

theorem plain_of_integer {value : ℤ} (integer : Integer text value) :
    ∀ char ∈ text, Plain char := by
  cases integer with
  | unsigned numeral => exact plain_of_numeral (by decide) numeral
  | plus numeral =>
      exact List.forall_mem_cons.mpr ⟨by decide, plain_of_numeral (by decide) numeral⟩
  | minus numeral =>
      exact List.forall_mem_cons.mpr ⟨by decide, plain_of_numeral (by decide) numeral⟩

/-! ## Fields -/

variable {start position : Position} {done : List (List UInt8)} {rest : List UInt8}

theorem scan_of_plain (plain : ∀ char ∈ text, Plain char) (field : List UInt8) :
    scan .plain start position done field (Utf8.encode text ++ rest) =
      scan .plain start ((Utf8.encode text).foldl Position.after position) done
        ((Utf8.encode text).reverse ++ field) rest := by
  rw [encode_of_plain plain]
  induction text generalizing position field with
  | nil => rfl
  | cons char others induction =>
      rw [List.forall_mem_cons] at plain
      rw [List.map_cons, List.cons_append, scan, plain.1.move_eq (.inr (.inr rfl))]
      simp [induction plain.2]

/-- A field of plain characters is scanned to its end. -/
theorem scan_field (plain : ∀ char ∈ text, Plain char) (filled : text ≠ []) {place : Place}
    (opens : place = .before ∨ place = .fieldStart) :
    scan place start position done [] (Utf8.encode text ++ rest) =
      scan .plain start ((Utf8.encode text).foldl Position.after position) done
        (Utf8.encode text).reverse rest := by
  cases text with
  | nil => exact absurd rfl filled
  | cons char others =>
      rw [List.forall_mem_cons] at plain
      have byte : Utf8.encode (char :: others) = char.toUInt8 :: Utf8.encode others := by
        rw [Utf8.encode, List.flatMap_cons, plain.1.encode_eq]
        rfl
      rw [byte, List.cons_append, scan, plain.1.move_eq (opens.imp_right .inl)]
      dsimp only
      rw [scan_of_plain plain.2]
      simp

/-! ## Lines -/

/-- The characters of a line that holds some fields. -/
def lineOf (fields : List (List Char)) : List Char :=
  [','].intercalate fields ++ ['\n']

theorem lineOf_singleton (text : List Char) : lineOf [text] = text ++ ['\n'] := by
  rw [lineOf, List.intercalate_singleton]

theorem lineOf_cons_cons (text other : List Char) (more : List (List Char)) :
    lineOf (text :: other :: more) = text ++ ([','] ++ lineOf (other :: more)) := by
  simp [lineOf, List.intercalate_cons_cons]

/-- Fields that can be written without quotes. -/
structure Writable (fields : List (List Char)) : Prop where
  present : fields ≠ []
  filled : ∀ text ∈ fields, text ≠ []
  plain : ∀ text ∈ fields, ∀ char ∈ text, Plain char

/-- A line is scanned as one record, which is placed where the reader stood before it. -/
theorem scan_line {fields : List (List Char)} (writable : Writable fields) {place : Place}
    (opens : place = .before ∨ place = .fieldStart) :
    let next := (Utf8.encode (lineOf fields)).foldl Position.after position
    scan place start position done [] (Utf8.encode (lineOf fields) ++ rest) =
      ⟨done.reverse ++ fields.map Utf8.encode, start⟩ :: scan .before next next [] [] rest := by
  have lineEnd : Utf8.encode ['\n'] = [0x0a] := rfl
  have comma : Utf8.encode [','] = [0x2c] := rfl
  rcases writable with ⟨present, filled, plain⟩
  induction fields generalizing place position done with
  | nil => exact absurd rfl present
  | cons text others induction =>
      rw [List.forall_mem_cons] at filled plain
      cases others with
      | nil =>
          simp only [lineOf_singleton, encode_append, List.append_assoc, List.foldl_append]
          rw [scan_field plain.1 filled.1 opens, lineEnd]
          simp [scan, Place.move, Move.unquoted, isLineEnd]
      | cons other more =>
          simp only [lineOf_cons_cons, encode_append, List.append_assoc, List.foldl_append]
          rw [scan_field plain.1 filled.1 opens, comma]
          simp only [List.singleton_append, scan, Place.move, Move.unquoted, if_true]
          rw [induction (.inr rfl) (by simp) filled.2 plain.2]
          simp

/-! ## Files -/

theorem line_foldl_after (bytes : List UInt8) (position : Position) :
    (bytes.foldl Position.after position).line = position.line + bytes.count 0x0a := by
  induction bytes generalizing position with
  | nil => rfl
  | cons byte rest induction =>
      rw [List.foldl_cons, induction, Position.after, List.count_cons]
      by_cases lineEnd : byte = 0x0a
      · simp [lineEnd]
        omega
      · simp [lineEnd]

theorem count_lineEnd_of_plain (plain : ∀ char ∈ text, Plain char) :
    (Utf8.encode text).count 0x0a = 0 := by
  rw [List.count_eq_zero, encode_of_plain plain, List.mem_map]
  rintro ⟨char, member, same⟩
  have noLineEnd := (plain char member).isLineEnd_eq
  rw [same] at noLineEnd
  exact absurd noLineEnd (by decide)

theorem count_lineEnd_lineOf {fields : List (List Char)} (writable : Writable fields) :
    (Utf8.encode (lineOf fields)).count 0x0a = 1 := by
  rcases writable with ⟨present, -, plain⟩
  induction fields with
  | nil => exact absurd rfl present
  | cons text others induction =>
      rw [List.forall_mem_cons] at plain
      cases others with
      | nil =>
          rw [lineOf_singleton, encode_append, List.count_append, count_lineEnd_of_plain plain.1]
          rfl
      | cons other more =>
          rw [lineOf_cons_cons, encode_append, encode_append, List.count_append,
            List.count_append, count_lineEnd_of_plain plain.1, induction (by simp) plain.2]
          rfl

theorem decode_of_writable {fields : List (List Char)} (writable : Writable fields) (index : ℕ)
    (position : Position) :
    RawRecord.decode index ⟨fields.map Utf8.encode, position⟩ = .ok ⟨fields, position.line⟩ := by
  have decoded : ∀ field, decodeFields field (fields.map Utf8.encode) = .ok fields := by
    rcases writable with ⟨-, -, plain⟩
    induction fields with
    | nil => exact fun _ => rfl
    | cons text others induction =>
        intro field
        rw [List.forall_mem_cons] at plain
        rw [List.map_cons, decodeFields, trimBytes_encode_of_plain plain.1, Utf8.decode,
          decode_encode_of_plain plain.1]
        dsimp only
        rw [trim_of_plain plain.1, induction plain.2]
        rfl
  rw [RawRecord.decode, decoded]

/-- Lines are scanned one by one and keep their numbers. -/
theorem mapIdx_decode_scan_lines {lines : List (List (List Char))}
    (writable : ∀ fields ∈ lines, Writable fields) (position : Position) (index : ℕ) :
    (scan .before position position [] [] (Utf8.encode (lines.flatMap lineOf))).mapIdx
        (fun offset => RawRecord.decode (index + offset)) =
      lines.mapIdx fun offset fields => .ok ⟨fields, position.line + offset⟩ := by
  induction lines generalizing position index with
  | nil => rfl
  | cons fields others induction =>
      rw [List.forall_mem_cons] at writable
      rw [List.flatMap_cons, encode_append, scan_line writable.1 (.inl rfl)]
      simp only [List.reverse_nil, List.nil_append, List.mapIdx_cons, Nat.add_zero,
        decode_of_writable writable.1]
      have next := induction writable.2
        ((Utf8.encode (lineOf fields)).foldl Position.after position)
        (index + 1)
      rw [line_foldl_after, count_lineEnd_lineOf writable.1] at next
      simp only [Nat.add_assoc, Nat.add_comm 1] at next ⊢
      rw [next]

theorem toList_text (records : List (List String)) :
    (Delimited.text records).toList =
      (records.map fun fields => fields.map String.toList).flatMap lineOf := by
  have single : ∀ fields, (line fields).toList = lineOf (fields.map String.toList) := by
    intro fields
    rw [line, String.toList_append, String.toList_intercalate]
    rfl
  rw [Delimited.text, String.toList_join, List.flatMap_map, List.flatMap_map]
  simp only [single]

theorem Writable.lineOf_eq_cons {fields : List (List Char)} (writable : Writable fields) :
    ∃ char rest, Plain char ∧ lineOf fields = char :: rest := by
  rcases writable with ⟨present, filled, plain⟩
  rcases List.exists_cons_of_ne_nil present with ⟨text, others, rfl⟩
  rw [List.forall_mem_cons] at filled plain
  rcases List.exists_cons_of_ne_nil filled.1 with ⟨char, rest, rfl⟩
  refine ⟨char, ?_⟩
  cases others with
  | nil => exact ⟨_, plain.1 char (by simp), lineOf_singleton _⟩
  | cons other more => exact ⟨_, plain.1 char (by simp), lineOf_cons_cons _ _ _⟩

/-- A written file starts with a plain character and not with a byte order mark. -/
theorem not_byteOrderMark_of_writable {lines : List (List (List Char))}
    (writable : ∀ fields ∈ lines, Writable fields) :
    byteOrderMark.isPrefixOf (Utf8.encode (lines.flatMap lineOf)) = false := by
  cases lines with
  | nil => rfl
  | cons fields others =>
      rcases (List.forall_mem_cons.mp writable).1.lineOf_eq_cons with ⟨char, rest, plain, line⟩
      rw [List.flatMap_cons, line, List.cons_append, Utf8.encode, List.flatMap_cons,
        plain.encode_eq, List.singleton_append, byteOrderMark, List.isPrefixOf_cons_cons]
      have code := plain.toNat_byte
      have small := plain.2.1
      have differs : (0xef : UInt8) ≠ char.toUInt8 := by
        intro same
        rw [← same] at code
        simp only [UInt8.reduceToNat] at code
        omega
      rw [beq_false_of_ne differs, Bool.false_and]

/-- Written records are read as they were written. -/
theorem read_text {records : List (List String)}
    (writable : ∀ fields ∈ records, Writable (fields.map String.toList)) :
    read (Utf8.encode (Delimited.text records).toList) =
      records.mapIdx fun index fields => .ok ⟨fields.map String.toList, index + 1⟩ := by
  have lines : ∀ fields ∈ records.map fun fields => fields.map String.toList, Writable fields := by
    intro fields member
    rcases List.mem_map.mp member with ⟨record, inside, rfl⟩
    exact writable record inside
  rw [read, Delimited.records, toList_text, not_byteOrderMark_of_writable lines]
  have scanned := mapIdx_decode_scan_lines lines .start 0
  simp only [Nat.zero_add] at scanned
  rw [if_neg (by simp), scanned]
  apply List.ext_getElem (by simp)
  intro index within alsoWithin
  simp [Position.start, Nat.add_comm]

end FrameTiming.Delimited

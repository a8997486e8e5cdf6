import FrameTiming.Proofs.Delimited
import FrameTiming.Proofs.EventGrammar

/-! # Events that were written

The grammar of a line leaves choices: numbers may have a sign or zeros in front, and hexadecimal
digits may be in either case. However an event is written, the grammar finds this event on its line.
-/

namespace FrameTiming

open Delimited (Plain not_mem_of_plain)
open Event (inQuotes joinFields)
open Number (Numeral Integer)
open Text

variable {text : List Char}

/-! ## Numbers -/

/-- A text that stands for a number of an attribute. -/
inductive AttributeNumber.Written : AttributeNumber → List Char → Prop
  | decimal {value : Int64} {text : List Char} (integer : Integer text value.toInt) :
      Written (.decimal value) text
  | hexadecimal {value : UInt64} {digits : List Char} (numeral : Numeral 16 digits value.toNat) :
      Written (.hexadecimal value) ('0' :: 'x' :: digits)

namespace AttributeNumber

variable {number : AttributeNumber}

theorem Written.plain (written : number.Written text) : ∀ char ∈ text, Plain char := by
  cases written with
  | decimal integer => exact Delimited.plain_of_integer integer
  | hexadecimal numeral =>
      rw [List.forall_mem_cons, List.forall_mem_cons]
      exact ⟨by decide, by decide, Delimited.plain_of_numeral (Nat.le_refl _) numeral⟩

theorem Written.literal (written : number.Written text) : number.Literal text := by
  cases written with
  | decimal integer => exact .decimal integer
  | hexadecimal numeral => exact .hexadecimal (.unsigned numeral)

variable {values : List AttributeNumber} {items : List (List Char)}

theorem plain_items (written : List.Forall₂ Written values items) :
    ∀ item ∈ items, ∀ char ∈ item, Plain char := by
  induction written with
  | nil => simp
  | cons first _ induction => exact List.forall_mem_cons.mpr ⟨first.plain, induction⟩

theorem plain_of_mem_list (written : List.Forall₂ Written values items) :
    ∀ char ∈ joinFields items, char = ',' ∨ Plain char := by
  intro char member
  apply (Event.mem_joinFields member).imp_right
  rintro ⟨item, listed, inside⟩
  exact plain_items written item listed char inside

theorem literals_of_written (written : List.Forall₂ Written values items) :
    List.Forall₂ (fun item value => value.Literal (trim item)) items values := by
  induction written with
  | nil => exact .nil
  | cons first _ induction =>
      refine .cons ?_ induction
      rw [Delimited.trim_of_plain first.plain]
      exact first.literal

theorem written_text (number : AttributeNumber) : number.Written number.text.toList := by
  cases number with
  | decimal value => exact .decimal (Number.integer_toString value.toInt)
  | hexadecimal value =>
      have digits : (AttributeNumber.hexadecimal value).text.toList =
          '0' :: 'x' :: Nat.toDigits 16 value.toNat := by
        simp [AttributeNumber.text]
      rw [digits]
      exact .hexadecimal (.toDigits (by decide) value.toNat)

end AttributeNumber

/-! ## Values -/

theorem Event.unbroken_of_plain {quoted : Bool} (plain : ∀ char ∈ text, Plain char) :
    Unbroken quoted text quoted := by
  apply unbroken_of_noQuote
  · exact not_mem_of_plain plain (by decide)
  · exact fun comma => absurd comma (not_mem_of_plain plain (by decide))

/-- A text that stands for the value of an attribute. -/
inductive AttributeValue.Written : AttributeValue → List Char → Prop
  | number {number : AttributeNumber} {text : List Char} (written : number.Written text) :
      Written (.number number) text
  | list {values : List AttributeNumber} {items : List (List Char)}
      (written : List.Forall₂ AttributeNumber.Written values items) :
      Written (.list values) (inQuotes ('[' :: (joinFields items ++ [']'])))
  | text (content : String) : Written (.text content) (inQuotes content.toList)

/-- Text can be told apart from its quotes and from a list. -/
def AttributeValue.Writable : AttributeValue → Prop
  | .text content => '"' ∉ content.toList ∧ content.toList.head? ≠ some '['
  | _ => True

namespace AttributeValue

variable {value : AttributeValue}

/-- Between the brackets of a list without items there is nothing, not a blank item. -/
theorem content_list {values : List AttributeNumber} {items : List (List Char)}
    (written : List.Forall₂ AttributeNumber.Written values items) :
    (list values).Content ('[' :: (joinFields items ++ [']'])) := by
  by_cases present : items = []
  · subst present
    cases written
    exact .blank rfl
  · have noComma : ∀ item ∈ items, ',' ∉ item := fun item listed =>
      not_mem_of_plain (AttributeNumber.plain_items written item listed) (by decide)
    exact .list present noComma (AttributeNumber.literals_of_written written)

theorem literal_of_written (written : value.Written text) (writable : value.Writable) :
    value.Literal text := by
  cases written with
  | number written => exact .number written.literal
  | list written => exact .quoted (content_list written)
  | text content =>
      have plain := Content.text writable.2
      rw [String.ofList_toList] at plain
      exact .quoted plain

theorem trim_of_written (written : value.Written text) : trim text = text := by
  cases written with
  | number written => exact Delimited.trim_of_plain written.plain
  | list written => exact Event.trim_inQuotes _
  | text content => exact Event.trim_inQuotes _

theorem unbroken_of_written (written : value.Written text) (writable : value.Writable) :
    Event.Unbroken false text false := by
  cases written with
  | number written => exact Event.unbroken_of_plain written.plain
  | list written =>
      apply Event.unbroken_inQuotes
      simp only [List.mem_cons, List.mem_append, List.not_mem_nil, or_false]
      rintro (bracket | inside | bracket)
      · exact absurd bracket (by decide)
      · rcases AttributeNumber.plain_of_mem_list written '"' inside with comma | plain
        · exact absurd comma (by decide)
        · exact plain.2.2.2 rfl
      · exact absurd bracket (by decide)
  | text content => exact Event.unbroken_inQuotes writable.1

theorem written_fieldText (value : AttributeValue) : value.Written value.fieldText.toList := by
  cases value with
  | number number => exact .number number.written_text
  | list values =>
      have items : List.Forall₂ AttributeNumber.Written values
          (values.map fun number => number.text.toList) := by
        rw [List.forall₂_map_right_iff, List.forall₂_same]
        exact fun number _ => number.written_text
      have written := AttributeValue.Written.list items
      simpa [inQuotes, fieldText, joinFields, String.toList_intercalate, Function.comp_def]
        using written
  | text content =>
      simpa [inQuotes, fieldText] using AttributeValue.Written.text content

end AttributeValue

/-! ## Events -/

namespace Event

/-- A text that stands for itself as a name. -/
structure IsName (text : List Char) : Prop where
  filled : text ≠ []
  trimmed : trim text = text
  noComma : ',' ∉ text
  noQuote : '"' ∉ text

/-- Neither key nor text of an attribute is taken for a part of the line. -/
structure WritableEntry (entry : String × AttributeValue) : Prop where
  key : IsName entry.1.toList
  noColon : ':' ∉ entry.1.toList
  value : entry.2.Writable

/-- Nothing that an event tells is taken for a part of the line. -/
structure Writable (event : Event) : Prop where
  name : IsName event.name.toList
  attributes : ∀ entry ∈ event.attributes, WritableEntry entry

/-- A field that tells an attribute. -/
inductive WrittenEntry : String × AttributeValue → List Char → Prop
  | field {key : String} {value : AttributeValue} {text : List Char}
      (written : value.Written text) : WrittenEntry (key, value) (key.toList ++ ':' :: text)

/-- The fields of a line that tells an event. -/
inductive Written (event : Event) : List (List Char) → Prop
  | fields {timestamp : List Char} {attributes : List (List Char)}
      (time : Integer timestamp event.timestamp.toInt)
      (others : List.Forall₂ WrittenEntry event.attributes attributes) :
      Written event
        (event.name.toList :: (timestampKey.toList ++ ':' :: timestamp) :: attributes)

/-! ## Fields -/

variable {event : Event} {field : List Char} {entry : String × AttributeValue}

theorem IsName.unbroken (isName : IsName text) : Unbroken false text false :=
  unbroken_of_noQuote isName.noQuote fun comma => absurd comma isName.noComma

theorem attributeField_of_written (written : WrittenEntry entry field)
    (writable : WritableEntry entry) : AttributeField field entry := by
  cases written with
  | @field key value text written =>
      have literal := AttributeValue.literal_of_written written writable.value
      rw [← AttributeValue.trim_of_written written] at literal
      have named : trim key.toList ≠ [] := by
        rw [writable.key.trimmed]
        exact writable.key.filled
      have described := AttributeField.intro writable.noColon named literal
      rwa [writable.key.trimmed, String.ofList_toList] at described

/-- A text that stays one field of a line and ends where the field does. -/
structure IsField (text : List Char) : Prop where
  unbroken : Unbroken false text false
  ends : ∀ last ∈ text.getLast?, isBlank last = false

theorem IsName.isField (isName : IsName text) : IsField text :=
  ⟨isName.unbroken, ends_of_trim_eq_self isName.trimmed⟩

theorem isField_of_writtenEntry (written : WrittenEntry entry field)
    (writable : WritableEntry entry) : IsField field := by
  cases written with
  | field written =>
      constructor
      · apply writable.key.unbroken.append
        apply Unbroken.char (by decide) (by decide)
        exact AttributeValue.unbroken_of_written written writable.value
      · apply ends_append_cons (by decide)
        exact ends_of_trim_eq_self (AttributeValue.trim_of_written written)

theorem isField_timestamp {timestamp : List Char} {value : ℤ} (time : Integer timestamp value) :
    IsField (timestampKey.toList ++ ':' :: timestamp) := by
  have plain := Delimited.plain_of_integer time
  constructor
  · apply Unbroken.append (unbroken_of_noQuote (by decide +kernel) (by decide +kernel))
    exact .char (by decide) (by decide) (unbroken_of_plain plain)
  · apply ends_append_cons (by decide)
    exact ends_of_trim_eq_self (Delimited.trim_of_plain plain)

theorem timestampField_of_integer {timestamp : List Char} {value : ℤ}
    (time : Integer timestamp value) :
    TimestampField (timestampKey.toList ++ ':' :: timestamp) timestamp := by
  have stamped : TimestampField (timestampKey.toList ++ ':' :: timestamp) (trim timestamp) :=
    .intro (by decide +kernel) (by decide +kernel)
  rwa [Delimited.trim_of_plain (Delimited.plain_of_integer time)] at stamped

/-! ## Lines -/

variable {fields : List (List Char)} {attributes : List (String × AttributeValue)}

theorem attributeFields_of_written (written : List.Forall₂ WrittenEntry attributes fields)
    (writable : ∀ entry ∈ attributes, WritableEntry entry) :
    List.Forall₂ AttributeField fields attributes := by
  induction written with
  | nil => exact .nil
  | cons first _ induction =>
      rw [List.forall_mem_cons] at writable
      exact .cons (attributeField_of_written first writable.1) (induction writable.2)

theorem describes_of_written (written : event.Written fields) (writable : event.Writable) :
    Describes fields event := by
  cases written with
  | fields time others =>
      have named : trim event.name.toList ≠ [] := by
        rw [writable.name.trimmed]
        exact writable.name.filled
      have described := Describes.intro named (timestampField_of_integer time) time
        (attributeFields_of_written others writable.attributes)
      rwa [writable.name.trimmed, String.ofList_toList] at described

theorem isField_of_mem_attributes (written : List.Forall₂ WrittenEntry attributes fields)
    (writable : ∀ entry ∈ attributes, WritableEntry entry) : ∀ field ∈ fields, IsField field := by
  induction written with
  | nil => simp
  | cons first _ induction =>
      rw [List.forall_mem_cons] at writable ⊢
      exact ⟨isField_of_writtenEntry first writable.1, induction writable.2⟩

theorem isField_of_written (written : event.Written fields) (writable : event.Writable) :
    ∀ field ∈ fields, IsField field := by
  cases written with
  | fields time others =>
      rw [List.forall_mem_cons, List.forall_mem_cons]
      exact ⟨writable.name.isField, isField_timestamp time,
        isField_of_mem_attributes others writable.attributes⟩

/-- What does not end in a blank does not lose its end with the line. -/
theorem endsLine_of_not_blank {char : Char} (noBlank : isBlank char = false) :
    endsLine char = false := by
  by_contra ends
  simp only [endsLine, Bool.not_eq_false, Bool.or_eq_true, decide_eq_true_eq] at ends
  rcases ends with rfl | rfl
  · exact absurd noBlank (by decide)
  · exact absurd noBlank (by decide)

theorem splitFields?_of_written (written : event.Written fields) (writable : event.Writable) :
    splitFields? (trimEndWhile endsLine (joinFields fields)) = some fields := by
  have isField := isField_of_written written writable
  have ends := ends_joinFields (by decide) fun field listed => (isField field listed).ends
  rw [trimEndWhile_eq_self fun last isLast => endsLine_of_not_blank (ends last isLast)]
  apply splitFields?_joinFields
  · cases written
    exact List.cons_ne_nil _ _
  · exact fun field listed => (isField field listed).unbroken

theorem exists_written_line (event : Event) :
    ∃ fields, event.Written fields ∧ joinFields fields = event.line.toList := by
  have others : List.Forall₂ WrittenEntry event.attributes (event.attributes.map
      fun entry => entry.1.toList ++ ':' :: entry.2.fieldText.toList) := by
    rw [List.forall₂_map_right_iff, List.forall₂_same]
    exact fun entry _ => .field entry.2.written_fieldText
  refine ⟨_, .fields (Number.integer_toString event.timestamp.toInt) others, ?_⟩
  have comma : ",".toList = [','] := rfl
  have colon : ":".toList = [':'] := rfl
  simp only [line, joinFields, String.toList_intercalate, String.toList_append, List.map_cons,
    List.map_map, Function.comp_def, comma, colon, List.append_assoc, List.singleton_append]

theorem parse_of_written (written : event.Written fields) (writable : event.Writable) :
    parse (joinFields fields) = .ok event := by
  have split := splitFields?_of_written written writable
  rw [splitFields?_eq, Option.ite_none_right_eq_some] at split
  rcases split with ⟨paired, pieces⟩
  rw [parse_eq_ok_iff, Option.some.inj pieces]
  exact ⟨paired, describes_of_written written writable⟩

/-- An event is read as it was told. If its name and its keys can be told apart from the line and
its texts from lists, then however its numbers are written, its line is read as the event, with all
attributes in order, and so is the line in which its numbers are written as usual. -/
theorem parse_written {event : Event} (writable : event.Writable) :
    (∀ fields, event.Written fields → parse (joinFields fields) = .ok event) ∧
      parse event.line.toList = .ok event := by
  rcases exists_written_line event with ⟨fields, written, same⟩
  refine ⟨fun fields written => parse_of_written written writable, ?_⟩
  rw [← same]
  exact parse_of_written written writable

private def sketch : Event :=
  ⟨"draw call", -9223372036854775808,
    [("hashes", .list [.hexadecimal 255, .decimal (-3)]), ("none", .list []),
      ("note", .text " a, b: ][")]⟩

private def sketchLine : String :=
  "draw call,timestamp:-9223372036854775808,hashes:\"[0x0fF,-3]\",none:\"[]\",note:\" a, b: ][\""

theorem parse_written_of_sketch :
    parse sketchLine.toList = .ok sketch ∧ parse sketch.line.toList = .ok sketch := by
  have zero : Number.IsDigit 16 '0' 0 := ⟨by decide, .inl rfl⟩
  have lower : Number.IsDigit 16 'f' 15 := ⟨by decide, .inl rfl⟩
  have upper : Number.IsDigit 16 'F' 15 := ⟨by decide, .inr rfl⟩
  have hash : Numeral 16 ['0', 'f', 'F'] 255 := .append (.append (.single zero) lower) upper
  have written : sketch.Written _ :=
    .fields (Number.integer_toString _)
      (.cons (.field (.list (.cons (.hexadecimal hash)
        (.cons (.decimal (Number.integer_toString (-3))) .nil))))
        (.cons (.field (.list .nil)) (.cons (.field (.text " a, b: ][")) .nil)))
  have writable : sketch.Writable := by
    refine ⟨⟨by decide, by decide, by decide, by decide⟩, ?_⟩
    simp only [sketch, List.forall_mem_cons]
    exact ⟨⟨⟨by decide, by decide, by decide, by decide⟩, by decide, trivial⟩,
      ⟨⟨by decide, by decide, by decide, by decide⟩, by decide, trivial⟩,
      ⟨⟨by decide, by decide, by decide, by decide⟩, by decide, by decide, by decide⟩, by simp⟩
  exact ⟨(parse_written writable).1 _ written, (parse_written writable).2⟩

end Event

end FrameTiming

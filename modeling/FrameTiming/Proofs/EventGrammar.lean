import FrameTiming.Event
import FrameTiming.Proofs.EventFields
import FrameTiming.Proofs.Except
import FrameTiming.Proofs.Number.Literal
import Mathlib.Data.List.Forall2

/-! # The grammar of events

A line holds an event if its quotes come in pairs and its fields are a name, a timestamp and
attributes. A line without an event is refused for the first of these conditions that it breaks.
-/

namespace FrameTiming

open Event (inQuotes joinFields)
open Number (Integer Natural signed? unsigned? signed?_eq_some_iff unsigned?_eq_some_iff)
open Text

variable {text content field : List Char}

/-! ## Numbers -/

/-- A text that is read as a number. -/
inductive AttributeNumber.Literal : AttributeNumber → List Char → Prop
  | decimal {value : Int64} {text : List Char} (integer : Integer text value.toInt) :
      Literal (.decimal value) text
  | hexadecimal {value : UInt64} {digits : List Char} (natural : Natural 16 digits value.toNat) :
      Literal (.hexadecimal value) ('0' :: 'x' :: digits)

theorem afterPrefix?_of_integer {value : ℤ} (integer : Integer text value) :
    afterPrefix? ['0', 'x'] text = none := by
  have noMark : 'x' ∉ text := integer.not_mem (by decide) (by decide) (by decide)
  exact afterPrefix?_of_not_mem (by decide) noMark

theorem afterPrefix?_hexadecimal (digits : List Char) :
    afterPrefix? ['0', 'x'] ('0' :: 'x' :: digits) = some digits :=
  afterPrefix?_append ['0', 'x'] digits

theorem AttributeNumber.parse?_eq_some_iff {number : AttributeNumber} :
    AttributeNumber.parse? text = some number ↔ number.Literal text := by
  constructor
  · intro read
    unfold AttributeNumber.parse? at read
    split at read
    · rename_i digits found
      rcases Option.map_eq_some_iff.mp read with ⟨value, denoted, rfl⟩
      rw [afterPrefix?_eq_some_iff.mp found]
      exact .hexadecimal ((unsigned?_eq_some_iff (Nat.le_refl _)).mp denoted)
    · rcases Option.map_eq_some_iff.mp read with ⟨value, denoted, rfl⟩
      exact .decimal (signed?_eq_some_iff.mp denoted)
  · intro literal
    cases literal with
    | decimal integer =>
        simp [AttributeNumber.parse?, afterPrefix?_of_integer integer,
          signed?_eq_some_iff.mpr integer]
    | hexadecimal natural =>
        simp [AttributeNumber.parse?, afterPrefix?_hexadecimal,
          (unsigned?_eq_some_iff (Nat.le_refl _)).mpr natural]

theorem AttributeNumber.Literal.ne_nil {number : AttributeNumber} (literal : number.Literal text) :
    text ≠ [] := by
  cases literal with
  | decimal integer => exact integer.ne_nil
  | hexadecimal natural => exact List.cons_ne_nil _ _

theorem AttributeNumber.Literal.noQuote {number : AttributeNumber}
    (literal : number.Literal text) : text.head? ≠ some '"' := by
  cases literal with
  | decimal integer =>
      have noQuote : '"' ∉ text := integer.not_mem (by decide) (by decide) (by decide)
      exact fun quoted => noQuote (List.mem_of_head? quoted)
  | hexadecimal natural => exact fun quoted => absurd (Option.some.inj quoted) (by decide)

/-! ## Values -/

namespace AttributeValue

/-- A text between quotes that is read as a value. -/
inductive Content : AttributeValue → List Char → Prop
  | blank {items : List Char} (empty : trim items = []) :
      Content (.list []) ('[' :: (items ++ [']']))
  | list {values : List AttributeNumber} {items : List (List Char)} (present : items ≠ [])
      (noComma : ∀ item ∈ items, ',' ∉ item)
      (literals : List.Forall₂ (fun item value => value.Literal (trim item)) items values) :
      Content (.list values) ('[' :: (joinFields items ++ [']']))
  | text {content : List Char} (noList : content.head? ≠ some '[') :
      Content (.text (String.ofList content)) content

/-- A trimmed text that is read as a value. -/
inductive Literal : AttributeValue → List Char → Prop
  | quoted {value : AttributeValue} {content : List Char} (literal : value.Content content) :
      Literal value (inQuotes content)
  | number {number : AttributeNumber} {text : List Char} (literal : number.Literal text) :
      Literal (.number number) text
  | bare {text : List Char} (noQuote : text.head? ≠ some '"') (noPrefix : ¬['0', 'x'] <+: text)
      (noInteger : ∀ value : Int64, ¬Integer text value.toInt) :
      Literal (.text (String.ofList text)) text

theorem mapM_parse?_eq_some_iff {items : List (List Char)} {values : List AttributeNumber} :
    (items.mapM fun item => AttributeNumber.parse? (trim item)) = some values ↔
      List.Forall₂ (fun item value => value.Literal (trim item)) items values := by
  induction items generalizing values with
  | nil => simp [eq_comm]
  | cons item items induction =>
      simp only [List.mapM_cons, Option.bind_eq_bind, Option.bind_eq_some_iff, induction,
        AttributeNumber.parse?_eq_some_iff]
      constructor
      · rintro ⟨value, literal, others, literals, made⟩
        cases made
        exact .cons literal literals
      · rintro (_ | ⟨literal, literals⟩)
        exact ⟨_, literal, _, literals, rfl⟩

/-- Items that are numbers are not blank together. -/
theorem trim_joinFields_ne_nil {items : List (List Char)} {values : List AttributeNumber}
    (present : items ≠ [])
    (literals : List.Forall₂ (fun item value => value.Literal (trim item)) items values) :
    trim (joinFields items) ≠ [] := by
  intro blank
  cases literals with
  | nil => exact present rfl
  | @cons item value items values literal others =>
      apply literal.ne_nil
      rw [trim_eq_nil_iff] at blank ⊢
      intro char member
      apply blank
      cases items with
      | nil => rwa [Event.joinFields_singleton]
      | cons other more =>
          rw [Event.joinFields_cons_cons]
          exact List.mem_append_left _ member

theorem parseQuoted?_eq_some_iff {value : AttributeValue} :
    parseQuoted? content = some value ↔ value.Content content := by
  constructor
  · intro read
    unfold parseQuoted? at read
    split at read
    · rename_i rest
      rcases Option.bind_eq_some_iff.mp read with ⟨items, found, read⟩
      rw [beforeLast?_eq_some_iff.mp found]
      split_ifs at read with empty
      · cases read
        exact .blank (List.isEmpty_iff.mp empty)
      · rcases Option.bind_eq_some_iff.mp read with ⟨values, literals, made⟩
        cases made
        rw [mapM_parse?_eq_some_iff] at literals
        -- The items are the only ones without commas that are joined to what the brackets hold.
        rcases splitAll_eq_iff.mp (rfl : splitAll ',' items = _) with ⟨present, noComma, joined⟩
        rw [joined]
        exact .list present noComma literals
    · rename_i noList
      cases read
      apply Content.text
      intro isList
      rcases List.head?_eq_some_iff.mp isList with ⟨rest, rfl⟩
      exact noList rest rfl
  · intro literal
    cases literal with
    | blank empty => simp [parseQuoted?, beforeLast?_append, empty]
    | @list values items present noComma literals =>
        have split : splitAll ',' (joinFields items) = items :=
          splitAll_intercalate present noComma
        simp [parseQuoted?, beforeLast?_append, trim_joinFields_ne_nil present literals, split,
          mapM_parse?_eq_some_iff.mpr literals]
    | text noList =>
        unfold parseQuoted?
        split
        · exact absurd rfl noList
        · rfl

/-- Without quotes, what is no number is text unless it starts like one. -/
theorem parse?_of_noQuote (noQuote : text.head? ≠ some '"') :
    parse? text = ((AttributeNumber.parse? text).map .number).or
      (if ['0', 'x'] <+: text then none else some (.text (String.ofList text))) := by
  unfold parse? AttributeNumber.parse?
  split
  · exact absurd rfl noQuote
  · cases found : afterPrefix? ['0', 'x'] text with
    | some digits =>
        have starts : ['0', 'x'] <+: text := ⟨digits, (afterPrefix?_eq_some_iff.mp found).symm⟩
        cases read : unsigned? 16 digits <;> simp [read, starts]
    | none =>
        have noPrefix := afterPrefix?_eq_none_iff.mp found
        cases read : signed? text <;> simp [noPrefix]

/-- A trimmed text is read as a value exactly if it is a literal of that value. -/
theorem parse?_eq_some_iff {value : AttributeValue} :
    parse? text = some value ↔ value.Literal text := by
  constructor
  · intro read
    by_cases quoted : text.head? = some '"'
    · rcases List.head?_eq_some_iff.mp quoted with ⟨rest, rfl⟩
      rcases Option.bind_eq_some_iff.mp read with ⟨content, found, read⟩
      rw [beforeLast?_eq_some_iff.mp found]
      exact .quoted (parseQuoted?_eq_some_iff.mp read)
    · rw [parse?_of_noQuote quoted, Option.or_eq_some_iff] at read
      rcases read with isNumber | ⟨noNumber, isText⟩
      · rcases Option.map_eq_some_iff.mp isNumber with ⟨number, denoted, rfl⟩
        exact .number (AttributeNumber.parse?_eq_some_iff.mp denoted)
      · split_ifs at isText with starts
        cases isText
        refine .bare quoted starts fun value integer => ?_
        have denoted := AttributeNumber.parse?_eq_some_iff.mpr (.decimal integer)
        rw [denoted] at noNumber
        cases noNumber
  · intro literal
    cases literal with
    | quoted literal =>
        simp [parse?, inQuotes, beforeLast?_append, parseQuoted?_eq_some_iff.mpr literal]
    | number literal =>
        rw [parse?_of_noQuote literal.noQuote, AttributeNumber.parse?_eq_some_iff.mpr literal]
        rfl
    | bare noQuote noPrefix noInteger =>
        -- A number that is no integer has the prefix.
        have noNumber : AttributeNumber.parse? text = none := by
          rw [Option.eq_none_iff_forall_ne_some]
          intro number read
          cases AttributeNumber.parse?_eq_some_iff.mp read with
          | decimal integer => exact noInteger _ integer
          | @hexadecimal value digits natural => exact noPrefix ⟨digits, rfl⟩
        rw [parse?_of_noQuote noQuote, noNumber, if_neg noPrefix]
        rfl

end AttributeValue

/-! ## Fields -/

namespace Event

/-- A field that has the timestamp, as text. -/
inductive TimestampField : List Char → List Char → Prop
  | intro {key value : List Char} (noColon : ':' ∉ key) (named : trim key = timestampKey.toList) :
      TimestampField (key ++ ':' :: value) (trim value)

/-- A field that has an attribute. -/
inductive AttributeField : List Char → String × AttributeValue → Prop
  | intro {key text : List Char} {value : AttributeValue} (noColon : ':' ∉ key)
      (named : trim key ≠ []) (literal : value.Literal (trim text)) :
      AttributeField (key ++ ':' :: text) (String.ofList (trim key), value)

theorem timestampField_iff {value : List Char} :
    TimestampField field value ↔ ∃ key text, splitOnce? ':' field = some (key, text) ∧
      trim key = timestampKey.toList ∧ trim text = value := by
  simp only [splitOnce?_eq_some_iff]
  constructor
  · rintro ⟨noColon, named⟩
    exact ⟨_, _, ⟨rfl, noColon⟩, named, rfl⟩
  · rintro ⟨key, text, ⟨rfl, noColon⟩, named, rfl⟩
    exact .intro noColon named

/-- A field that has no timestamp is none, and what the timestamp is has to be a number. -/
theorem parseTimestamp_cases (field : List Char) :
    (∀ value, ¬TimestampField field value) ∧ parseTimestamp field = .error .missingTimestamp ∨
      ∃ value, (∀ other, TimestampField field other ↔ other = value) ∧
        parseTimestamp field = match signed? value with
          | some timestamp => .ok timestamp
          | none => .error (.invalidTimestamp (String.ofList value)) := by
  simp only [timestampField_iff, parseTimestamp]
  cases splitOnce? ':' field with
  | none => exact .inl ⟨by simp, rfl⟩
  | some parts =>
      rcases parts with ⟨key, text⟩
      by_cases named : trim key = timestampKey.toList
      · exact .inr ⟨trim text, by simp [named, eq_comm], if_pos named⟩
      · exact .inl ⟨by simp [named], if_neg named⟩

theorem parseTimestamp_eq_ok_iff {timestamp : Int64} :
    parseTimestamp field = .ok timestamp ↔
      ∃ value, TimestampField field value ∧ Integer value timestamp.toInt := by
  simp only [← signed?_eq_some_iff]
  rcases parseTimestamp_cases field with ⟨unstamped, outcome⟩ | ⟨value, stamped, outcome⟩
  · simp [outcome, unstamped]
  · simp only [outcome, stamped, exists_eq_left]
    cases signed? value <;> simp

theorem parseTimestamp_eq_error_iff {fault : EventFault} :
    parseTimestamp field = .error fault ↔
      ((∀ value, ¬TimestampField field value) ∧ fault = .missingTimestamp) ∨
        ∃ value, TimestampField field value ∧
          (∀ timestamp : Int64, ¬Integer value timestamp.toInt) ∧
          fault = .invalidTimestamp (String.ofList value) := by
  simp only [← signed?_eq_some_iff]
  rcases parseTimestamp_cases field with ⟨unstamped, outcome⟩ | ⟨value, stamped, outcome⟩
  · simp [outcome, unstamped, eq_comm]
  · simp only [outcome, stamped, exists_eq_left]
    cases signed? value <;> simp [eq_comm]

theorem parseAttribute?_eq_some_iff {entry : String × AttributeValue} :
    parseAttribute? field = some entry ↔ AttributeField field entry := by
  simp only [parseAttribute?, Option.bind_eq_bind, Option.bind_eq_some_iff, Prod.exists,
    splitOnce?_eq_some_iff]
  constructor
  · rintro ⟨key, text, ⟨rfl, noColon⟩, read⟩
    split_ifs at read with unnamed
    rcases Option.bind_eq_some_iff.mp read with ⟨value, literal, made⟩
    cases made
    exact .intro noColon (mt List.isEmpty_iff.mpr unnamed)
      (AttributeValue.parse?_eq_some_iff.mp literal)
  · rintro ⟨noColon, named, literal⟩
    refine ⟨_, _, ⟨rfl, noColon⟩, ?_⟩
    simp [named, AttributeValue.parse?_eq_some_iff.mpr literal]

variable {fields : List (List Char)}

theorem parseAttribute?_eq_none_iff :
    parseAttribute? field = none ↔ ∀ entry, ¬AttributeField field entry := by
  simp only [Option.eq_none_iff_forall_ne_some, ne_eq, parseAttribute?_eq_some_iff]

theorem parseAttributes_eq_ok_iff {attributes : List (String × AttributeValue)} :
    parseAttributes fields = .ok attributes ↔ List.Forall₂ AttributeField fields attributes := by
  induction fields generalizing attributes with
  | nil => simp [parseAttributes, eq_comm]
  | cons field fields induction =>
      cases read : parseAttribute? field with
      | none =>
          have malformed := parseAttribute?_eq_none_iff.mp read
          simp [parseAttributes, read, List.forall₂_cons_left_iff, malformed]
      | some entry =>
          simp only [parseAttributes, read, map_eq_ok_iff, induction, List.forall₂_cons_left_iff,
            ← parseAttribute?_eq_some_iff, Option.some.injEq, exists_and_left, exists_eq_left']

/-- Attributes are refused for the first field that has none. -/
theorem parseAttributes_eq_error_iff {fault : EventFault} :
    parseAttributes fields = .error fault ↔
      ∃ before malformed after attributes, fields = before ++ malformed :: after ∧
        List.Forall₂ AttributeField before attributes ∧
        (∀ entry, ¬AttributeField malformed entry) ∧
        fault = .malformedAttribute (String.ofList malformed) := by
  constructor
  · intro refused
    induction fields with
    | nil => cases refused
    | cons field fields induction =>
        rw [parseAttributes] at refused
        split at refused
        · rename_i unread
          cases refused
          exact ⟨[], field, fields, [], rfl, .nil, parseAttribute?_eq_none_iff.mp unread, rfl⟩
        · rename_i entry read
          rcases induction (map_eq_error_iff.mp refused) with
            ⟨before, malformed, after, attributes, rfl, attributed, unattributed, rfl⟩
          exact ⟨field :: before, malformed, after, entry :: attributes, rfl,
            .cons (parseAttribute?_eq_some_iff.mp read) attributed, unattributed, rfl⟩
  · rintro ⟨before, malformed, after, attributes, rfl, attributed, unattributed, rfl⟩
    -- Only the fields in front of the malformed one are read.
    induction attributed with
    | nil => simp [parseAttributes, parseAttribute?_eq_none_iff.mpr unattributed]
    | cons first _ induction =>
        simp [parseAttributes, parseAttribute?_eq_some_iff.mpr first, induction, Except.map]

/-! ## Lines -/

/-- Fields that have an event. -/
inductive Describes : List (List Char) → Event → Prop
  | intro {name field value : List Char} {others : List (List Char)} {timestamp : Int64}
      {attributes : List (String × AttributeValue)} (named : trim name ≠ [])
      (stamped : TimestampField field value) (integer : Integer value timestamp.toInt)
      (attributed : List.Forall₂ AttributeField others attributes) :
      Describes (name :: field :: others) ⟨String.ofList (trim name), timestamp, attributes⟩

/-- The first thing that fields lack to have an event. -/
inductive Lacks : List (List Char) → EventFault → Prop
  | name {name : List Char} {others : List (List Char)} (unnamed : trim name = []) :
      Lacks (name :: others) .missingName
  | secondField {name : List Char} (named : trim name ≠ []) : Lacks [name] .missingTimestamp
  | timestamp {name field : List Char} {others : List (List Char)} (named : trim name ≠ [])
      (unstamped : ∀ value, ¬TimestampField field value) :
      Lacks (name :: field :: others) .missingTimestamp
  | integer {name field value : List Char} {others : List (List Char)} (named : trim name ≠ [])
      (stamped : TimestampField field value)
      (noInteger : ∀ timestamp : Int64, ¬Integer value timestamp.toInt) :
      Lacks (name :: field :: others) (.invalidTimestamp (String.ofList value))
  | attributes {name field value malformed : List Char} {before after : List (List Char)}
      {timestamp : Int64} {attributes : List (String × AttributeValue)} (named : trim name ≠ [])
      (stamped : TimestampField field value) (integer : Integer value timestamp.toInt)
      (attributed : List.Forall₂ AttributeField before attributes)
      (unattributed : ∀ entry, ¬AttributeField malformed entry) :
      Lacks (name :: field :: (before ++ malformed :: after))
        (.malformedAttribute (String.ofList malformed))

/-- The event that fields have. -/
def ofFields : List (List Char) → Except EventFault Event
  | [] => .error .missingName
  | name :: others =>
      if trim name = [] then .error .missingName
      else match others with
        | [] => .error .missingTimestamp
        | field :: others => do
            let timestamp ← parseTimestamp field
            let attributes ← parseAttributes others
            .ok ⟨String.ofList (trim name), timestamp, attributes⟩

theorem parse_eq (line : List Char) :
    parse line =
      if Even ((trimEndWhile endsLine line).count '"') then
        ofFields (pieces (trimEndWhile endsLine line))
      else .error .unterminatedQuote := by
  rw [parse, splitFields?_eq]
  split_ifs with paired
  · cases pieces (trimEndWhile endsLine line) with
    | nil => rfl
    | cons name others =>
        by_cases unnamed : trim name = []
        · simp [ofFields, unnamed]
        · cases others <;> simp [ofFields, unnamed]
  · rfl

theorem ofFields_eq_ok_iff {event : Event} :
    ofFields fields = .ok event ↔ Describes fields event := by
  constructor
  · intro read
    unfold ofFields at read
    split at read
    · cases read
    · split_ifs at read with named
      split at read
      · cases read
      · simp only [bind_eq_ok_iff] at read
        rcases read with ⟨timestamp, stamped, attributes, attributed, made⟩
        cases made
        rcases parseTimestamp_eq_ok_iff.mp stamped with ⟨value, stamped, integer⟩
        exact .intro named stamped integer (parseAttributes_eq_ok_iff.mp attributed)
  · rintro ⟨named, stamped, integer, attributed⟩
    simp [ofFields, named, parseTimestamp_eq_ok_iff.mpr ⟨_, stamped, integer⟩,
      parseAttributes_eq_ok_iff.mpr attributed, bind, Except.bind]

theorem ofFields_eq_error_iff (present : fields ≠ []) {fault : EventFault} :
    ofFields fields = .error fault ↔ Lacks fields fault := by
  constructor
  · intro refused
    unfold ofFields at refused
    split at refused
    · exact absurd rfl present
    · split_ifs at refused with unnamed
      · cases refused
        exact .name unnamed
      split at refused
      · cases refused
        exact .secondField unnamed
      · simp only [bind_eq_error_iff, parseTimestamp_eq_error_iff, parseTimestamp_eq_ok_iff,
          parseAttributes_eq_error_iff] at refused
        rcases refused with (⟨unstamped, rfl⟩ | ⟨value, stamped, noInteger, rfl⟩) |
          ⟨timestamp, ⟨value, stamped, integer⟩,
            ⟨before, malformed, after, attributes, rfl, attributed, unattributed, rfl⟩ |
            ⟨attributes, -, made⟩⟩
        · exact .timestamp unnamed unstamped
        · exact .integer unnamed stamped noInteger
        · exact .attributes unnamed stamped integer attributed unattributed
        · cases made
  · intro lacks
    cases lacks with
    | name unnamed => exact if_pos unnamed
    | secondField named => exact if_neg named
    | timestamp named unstamped =>
        simp [ofFields, named, parseTimestamp_eq_error_iff.mpr (.inl ⟨unstamped, rfl⟩), bind,
          Except.bind]
    | integer named stamped noInteger =>
        simp [ofFields, named,
          parseTimestamp_eq_error_iff.mpr (.inr ⟨_, stamped, noInteger, rfl⟩), bind, Except.bind]
    | attributes named stamped integer attributed unattributed =>
        simp [ofFields, named, parseTimestamp_eq_ok_iff.mpr ⟨_, stamped, integer⟩,
          parseAttributes_eq_error_iff.mpr
            ⟨_, _, _, _, rfl, attributed, unattributed, rfl⟩, bind, Except.bind]

variable {line : List Char}

theorem parse_eq_ok_iff {event : Event} :
    parse line = .ok event ↔
      Even ((trimEndWhile endsLine line).count '"') ∧
        Describes (pieces (trimEndWhile endsLine line)) event := by
  rw [parse_eq]
  split_ifs with paired
  · simp [ofFields_eq_ok_iff, paired]
  · simp [paired]

theorem parse_eq_error_iff {fault : EventFault} :
    parse line = .error fault ↔
      ¬Even ((trimEndWhile endsLine line).count '"') ∧ fault = .unterminatedQuote ∨
        Even ((trimEndWhile endsLine line).count '"') ∧
          Lacks (pieces (trimEndWhile endsLine line)) fault := by
  rw [parse_eq]
  split_ifs with paired
  · simp [ofFields_eq_error_iff (pieces_ne_nil _), paired]
  · simp [paired, eq_comm]

end Event

/-- A line has an event if its quotes come in pairs and the pieces between its separating commas
describe that event: a name, a timestamp and attributes. A line that has none is refused for its
quotes or else for the first thing that its pieces lack. Line ends behind it do not count. -/
theorem event_grammar (number : ℕ) (line : List Char) :
    let text := trimEndWhile Event.endsLine line
    let outcome := (Event.parse line).mapError (EventError.mk number)
    (∃ ends, line = text ++ ends ∧ ∀ char ∈ ends, char = '\r' ∨ char = '\n') ∧
      (∀ last ∈ text.getLast?, last ≠ '\r' ∧ last ≠ '\n') ∧
      (∀ event, outcome = .ok event ↔
        Even (text.count '"') ∧ Event.Describes (Event.pieces text) event) ∧
      ∀ error, outcome = .error error ↔ error.line = number ∧
        (¬Even (text.count '"') ∧ error.fault = .unterminatedQuote ∨
          Even (text.count '"') ∧ Event.Lacks (Event.pieces text) error.fault) := by
  intro text outcome
  refine ⟨?_, ?_, ?_, ?_⟩
  · rcases exists_eq_trimEndWhile_append Event.endsLine line with ⟨ends, whole, dropped⟩
    refine ⟨ends, whole, fun char member => ?_⟩
    simpa [Event.endsLine] using dropped char member
  · intro last isLast
    simpa [Event.endsLine] using ends_trimEndWhile line last isLast
  · intro event
    rw [mapError_eq_ok_iff]
    exact Event.parse_eq_ok_iff
  · intro error
    rw [mapError_eq_error_iff, ← Event.parse_eq_error_iff]
    constructor
    · rintro ⟨fault, refused, rfl⟩
      exact ⟨rfl, refused⟩
    · rintro ⟨numbered, refused⟩
      exact ⟨error.fault, refused, by rw [← numbered]⟩

/-- A comma between quotes belongs to a key. Of two malformed attributes the first one counts. -/
theorem event_grammar_of_quotedComma :
    Event.Describes (Event.pieces "draw,timestamp:-7,\",\":0x+F".toList)
        ⟨"draw", -7, [("\",\"", .number (.hexadecimal 15))]⟩ ∧
      Event.Lacks (Event.pieces "draw,timestamp:1,a,b:\"[x]\"".toList)
        (.malformedAttribute "a") := by
  constructor
  · have described := (event_grammar 1 "draw,timestamp:-7,\",\":0x+F".toList).2.2.1
      ⟨"draw", -7, [("\",\"", .number (.hexadecimal 15))]⟩
    exact (described.mp (by decide +kernel)).2
  · have refused := (event_grammar 1 "draw,timestamp:1,a,b:\"[x]\"".toList).2.2.2
      ⟨1, .malformedAttribute "a"⟩
    rcases (refused.mp (by decide +kernel)).2 with ⟨-, other⟩ | ⟨-, lacks⟩
    · cases other
    · exact lacks

end FrameTiming

import FrameTiming.Error
import FrameTiming.Event.Fields
import FrameTiming.Number.Literal

/-! # Events

An event is a line of fields: a name, a timestamp, and attributes of the form `key:value`. A value is
a whole number, a hexadecimal number behind `0x`, a list of such numbers between `"[` and `]"`, text
between quotes, or any other text. `parse` reads a line and reports the first fault in it; `line`
writes an event.
-/

namespace FrameTiming

open Number (signed? unsigned?)
open Text (trim trimEndWhile isBlank splitOnce? splitAll afterPrefix? beforeLast?)

/-! ## Attributes -/

/-- A number as it was written. -/
inductive AttributeNumber where
  | decimal (value : Int64)
  | hexadecimal (value : UInt64)
deriving DecidableEq, Repr

inductive AttributeValue where
  | number (value : AttributeNumber)
  | list (values : List AttributeNumber)
  | text (content : String)
deriving DecidableEq, Repr

namespace AttributeNumber

def toInt64? : AttributeNumber → Option Int64
  | .decimal value => some value
  | .hexadecimal value => if value ≤ Int64.maxValue.toUInt64 then some value.toInt64 else none

/-- A literal with or without `0x` in front. -/
def parse? (text : List Char) : Option AttributeNumber :=
  match afterPrefix? ['0', 'x'] text with
  | some digits => (unsigned? 16 digits).map .hexadecimal
  | none => (signed? text).map .decimal

end AttributeNumber

namespace AttributeValue

def toInt64? : AttributeValue → Option Int64
  | .number value => value.toInt64?
  | _ => none

def parseQuoted? : List Char → Option AttributeValue
  | '[' :: rest => do
      let items ← beforeLast? ']' rest
      if (trim items).isEmpty then
        some (.list [])
      else
        let values ← (splitAll ',' items).mapM fun item => AttributeNumber.parse? (trim item)
        some (.list values)
  | content => some (.text (String.ofList content))

/-- A trimmed value. Without quotes and without `0x`, what is no number is text. -/
def parse? (text : List Char) : Option AttributeValue :=
  match text with
  | '"' :: rest => (beforeLast? '"' rest).bind parseQuoted?
  | _ =>
      match afterPrefix? ['0', 'x'] text with
      | some digits => (unsigned? 16 digits).map fun value => .number (.hexadecimal value)
      | none =>
          match signed? text with
          | some value => some (.number (.decimal value))
          | none => some (.text (String.ofList text))

end AttributeValue

/-! ## Events -/

structure Event where
  name : String
  /-- Nanoseconds from an arbitrary moment on. -/
  timestamp : Int64
  /-- Keys and values in the order of the line. -/
  attributes : List (String × AttributeValue)
deriving DecidableEq, Repr

namespace Event

def attribute? (event : Event) (key : String) : Option AttributeValue :=
  event.attributes.lookup key

/-- The number that the first attribute with a key holds. -/
def number? (event : Event) (key : String) : Option Int64 :=
  (event.attribute? key).bind AttributeValue.toInt64?

/-! ## Reading -/

def timestampKey : String := "timestamp"

def parseTimestamp (field : List Char) : Except EventFault Int64 :=
  match splitOnce? ':' field with
  | none => .error .missingTimestamp
  | some (key, value) =>
      if trim key = timestampKey.toList then
        match signed? (trim value) with
        | some timestamp => .ok timestamp
        | none => .error (.invalidTimestamp (String.ofList (trim value)))
      else
        .error .missingTimestamp

def parseAttribute? (field : List Char) : Option (String × AttributeValue) := do
  let (key, value) ← splitOnce? ':' field
  if (trim key).isEmpty then
    none
  else
    let parsed ← AttributeValue.parse? (trim value)
    some (String.ofList (trim key), parsed)

def parseAttributes : List (List Char) → Except EventFault (List (String × AttributeValue))
  | [] => .ok []
  | field :: rest =>
      match parseAttribute? field with
      | none => .error (.malformedAttribute (String.ofList field))
      | some parsed => (parseAttributes rest).map (parsed :: ·)

def endsLine (char : Char) : Bool :=
  char = '\r' || char = '\n'

/-- The event on a line. Line ends after it are passed over. -/
def parse (line : List Char) : Except EventFault Event :=
  match splitFields? (trimEndWhile endsLine line) with
  | none => .error .unterminatedQuote
  | some fields =>
      let name := trim (fields.headD [])
      if name.isEmpty then
        .error .missingName
      else match fields.tail with
        | [] => .error .missingTimestamp
        | field :: rest => do
            let timestamp ← parseTimestamp field
            let attributes ← parseAttributes rest
            .ok ⟨String.ofList name, timestamp, attributes⟩

/-! ## Writing -/

end Event

def AttributeNumber.text : AttributeNumber → String
  | .decimal value => toString value.toInt
  | .hexadecimal value => "0x" ++ String.ofList (Nat.toDigits 16 value.toNat)

def AttributeValue.fieldText : AttributeValue → String
  | .number value => value.text
  | .list values => "\"[" ++ ",".intercalate (values.map AttributeNumber.text) ++ "]\""
  | .text content => "\"" ++ content ++ "\""

namespace Event

def line (event : Event) : String :=
  let attributes := event.attributes.map fun (key, value) => key ++ ":" ++ value.fieldText
  ",".intercalate (event.name :: (timestampKey ++ ":" ++ toString event.timestamp.toInt) :: attributes)

private def sample : Event :=
  ⟨"draw", -7, [("hashes", .list [.hexadecimal 2, .decimal (-3)]), ("note", .text "a,b: c")]⟩

example : sample.line = "draw,timestamp:-7,hashes:\"[0x2,-3]\",note:\"a,b: c\"" := by decide +kernel
example : (parse sample.line.toList).toOption = some sample := by decide +kernel

end Event

end FrameTiming

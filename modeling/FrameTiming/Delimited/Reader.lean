import FrameTiming.Error
import FrameTiming.Text.Blank
import FrameTiming.Text.Utf8

/-! # Reading delimited records

Bytes are cut into records at line ends and into fields at commas. A field that starts with a quote
runs to the matching quote, with doubled quotes for single ones; what follows the closing quote is
taken as it stands. Lines without any character hold no record.

The reader stops right behind the byte that ends a record. The position of a record is where the
reader stood before it, so line ends in front of a record, and the second byte of a two-byte line
end, are not yet counted.
-/

namespace FrameTiming.Delimited

open FrameTiming.Text

/-! ## Records -/

/-- A place in a file: bytes before it, and its line, counted from one by line feeds. -/
structure Position where
  byte : Nat
  line : Nat
deriving DecidableEq, Repr

namespace Position

def start : Position :=
  ⟨0, 1⟩

def after (position : Position) (byte : UInt8) : Position :=
  ⟨position.byte + 1, if byte = 0x0a then position.line + 1 else position.line⟩

end Position

/-- The fields of a record as bytes, and where the reader stood before it. -/
structure RawRecord where
  fields : List (List UInt8)
  position : Position
deriving DecidableEq, Repr

/-! ## Scanning -/

inductive Place where
  | before
  | fieldStart
  /-- In a field, or behind its closing quote. -/
  | plain
  | quoted
  | afterQuote

def isLineEnd (byte : UInt8) : Bool :=
  byte = 0x0a || byte = 0x0d

inductive Move where
  | pass (place : Place)
  | keep (place : Place)
  | endField
  | endRecord

def Move.unquoted (byte : UInt8) : Move :=
  if byte = 0x2c then .endField else if isLineEnd byte then .endRecord else .keep .plain

def Place.move (byte : UInt8) : Place → Move
  | .before =>
      if isLineEnd byte then .pass .before
      else if byte = 0x22 then .pass .quoted
      else .unquoted byte
  | .fieldStart => if byte = 0x22 then .pass .quoted else .unquoted byte
  | .plain => .unquoted byte
  | .quoted => if byte = 0x22 then .pass .afterQuote else .keep .quoted
  | .afterQuote => if byte = 0x22 then .keep .quoted else .unquoted byte

/-- The records of a file. `position` is the current place in it and `start` the one before the
record at hand; `fields` are its finished fields and `field` the open one, both latest first. -/
def scan (place : Place) (start position : Position) (fields : List (List UInt8))
    (field : List UInt8) : List UInt8 → List RawRecord
  | [] =>
      match place with
      | .before => []
      | _ => [⟨(field.reverse :: fields).reverse, start⟩]
  | byte :: rest =>
      let next := position.after byte
      match place.move byte with
      | .pass place => scan place start next fields field rest
      | .keep place => scan place start next fields (byte :: field) rest
      | .endField => scan .fieldStart start next (field.reverse :: fields) [] rest
      | .endRecord =>
          ⟨(field.reverse :: fields).reverse, start⟩ :: scan .before next next [] [] rest

def byteOrderMark : List UInt8 :=
  [0xef, 0xbb, 0xbf]

def records (bytes : List UInt8) : List RawRecord :=
  if byteOrderMark.isPrefixOf bytes then
    scan .before .start ⟨byteOrderMark.length, 1⟩ [] [] (bytes.drop byteOrderMark.length)
  else
    scan .before .start .start [] [] bytes

/-! ## Text -/

structure Record where
  fields : List (List Char)
  line : Nat
deriving DecidableEq, Repr

def isBlankByte (byte : UInt8) : Bool :=
  byte = 0x20 || byte = 0x09 || byte = 0x0a || byte = 0x0c || byte = 0x0d

def trimBytes (bytes : List UInt8) : List UInt8 :=
  ((bytes.dropWhile isBlankByte).reverse.dropWhile isBlankByte).reverse

/-- The fields as trimmed text, or the index of the first field that is none and the length of its
valid part. -/
def decodeFields (index : Nat) : List (List UInt8) → Except (Nat × Nat) (List (List Char))
  | [] => .ok []
  | field :: rest =>
      match Utf8.decode (trimBytes field) with
      | .error validLength => .error (index, validLength)
      | .ok text => (decodeFields (index + 1) rest).map (trim text :: ·)

/-- The record as text. `index` is its number, the first line being number 0. The first record
behind that line is read together with it, and faults in it are placed at the start of the file. -/
def RawRecord.decode (index : Nat) (raw : RawRecord) : Except TableFault Record :=
  match decodeFields 0 raw.fields with
  | .ok fields => .ok ⟨fields, raw.position.line⟩
  | .error (field, validLength) =>
      let (record, position) := if index = 1 then (0, Position.start) else (index, raw.position)
      .error (.invalidText record position.line position.byte field validLength)

def read (bytes : List UInt8) : List (Except TableFault Record) :=
  (records bytes).mapIdx RawRecord.decode

/-! ## Examples -/

private def ascii (text : String) : List UInt8 :=
  Utf8.encode text.toList

private def fieldTexts (text : String) : List (List (Option String)) :=
  (records (ascii text)).map fun raw => raw.fields.map Utf8.decode?

example : fieldTexts "a,b\r\n\n\"5\"6\"7\",\"x,\"\"\n\"\n"
    = [[some "a", some "b"], [some "56\"7\"", some "x,\"\n"]] := by decide +kernel
example : fieldTexts "a,\n \n\"" = [[some "a", some ""], [some " "], [some ""]] := by decide +kernel
example : (records (ascii "h\r\n\n5")).map (·.position) = [⟨0, 1⟩, ⟨2, 1⟩] := by decide +kernel

end FrameTiming.Delimited

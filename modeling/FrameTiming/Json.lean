import FrameTiming.Number.Layout

/-! # JSON

Values and their two texts: on one line without blanks, or over several lines with two spaces of
indent per level. Members of an object are written in their given order.
-/

namespace FrameTiming

inductive Json where
  | null
  | natural (value : Nat)
  | float (value : Float)
  | boolean (value : Bool)
  | string (content : String)
  | array (elements : List Json)
  | object (members : List (String × Json))

namespace Json

/-! ## Scalars -/

/-- Numbers have the fewest digits that read back; from `1e16` on and below `1e-5` they have an
exponent with a sign. -/
def layout : Number.Layout where
  tie := .toEven
  exponential exponent := 16 ≤ exponent || exponent ≤ -6
  wholeFraction := true
  plusSign := true

example : layout.text 60 = "60.0" ∧ layout.text 1e16 = "1e+16" ∧ layout.text 1e-6 = "1e-6" := by
  decide +kernel
example : layout.text 0.00001 = "0.00001" ∧ layout.text (-0.0) = "-0.0" := by decide +kernel

/-- There is no number for what is not finite. -/
def floatText (value : Float) : String :=
  if value.isFinite then layout.text value else "null"

/-- A character in a string. Quotes, backslashes and control characters are written with a
backslash. -/
def escape (char : Char) : List Char :=
  match char with
  | '"' => ['\\', '"']
  | '\\' => ['\\', '\\']
  | '\x08' => ['\\', 'b']
  | '\t' => ['\\', 't']
  | '\n' => ['\\', 'n']
  | '\x0c' => ['\\', 'f']
  | '\r' => ['\\', 'r']
  | char =>
      if char.toNat < 0x20 then
        ['\\', 'u', '0', '0', Nat.digitChar (char.toNat / 16), Nat.digitChar (char.toNat % 16)]
      else
        [char]

def quote (content : String) : String :=
  String.ofList ('"' :: content.toList.flatMap escape ++ ['"'])

example : quote "a\"\n\x1f" = "\"a\\\"\\n\\u001f\"" := by decide +kernel

/-! ## One line -/

mutual

def compact : Json → String
  | .null => "null"
  | .natural value => toString value
  | .float value => floatText value
  | .boolean value => if value then "true" else "false"
  | .string content => quote content
  | .array elements => "[" ++ ",".intercalate (compactElements elements) ++ "]"
  | .object members => "\x7b" ++ ",".intercalate (compactMembers members) ++ "\x7d"

def compactElements : List Json → List String
  | [] => []
  | element :: rest => element.compact :: compactElements rest

def compactMembers : List (String × Json) → List String
  | [] => []
  | (key, value) :: rest => (quote key ++ ":" ++ value.compact) :: compactMembers rest

end

example : (object [("a", array [natural 1, null]), ("b", float 0.5)]).compact
    = "\x7b\"a\":[1,null],\"b\":0.5\x7d" := by decide +kernel

/-! ## Several lines -/

def indent (depth : Nat) : String :=
  String.ofList (List.replicate (2 * depth) ' ')

/-- Items between brackets, each on a line of its own. -/
def block (left right : String) (depth : Nat) (items : List String) : String :=
  if items.isEmpty then
    left ++ right
  else
    let lines := items.map (indent (depth + 1) ++ ·)
    left ++ "\n" ++ ",\n".intercalate lines ++ "\n" ++ indent depth ++ right

mutual

/-- The text over several lines, the first of which is at a depth already. -/
def prettyAt (depth : Nat) : Json → String
  | .array elements => block "[" "]" depth (prettyElements (depth + 1) elements)
  | .object members => block "\x7b" "\x7d" depth (prettyMembers (depth + 1) members)
  | .null => "null"
  | .natural value => toString value
  | .float value => floatText value
  | .boolean value => if value then "true" else "false"
  | .string content => quote content

def prettyElements (depth : Nat) : List Json → List String
  | [] => []
  | element :: rest => element.prettyAt depth :: prettyElements depth rest

def prettyMembers (depth : Nat) : List (String × Json) → List String
  | [] => []
  | (key, value) :: rest =>
      (quote key ++ ": " ++ value.prettyAt depth) :: prettyMembers depth rest

end

def pretty (value : Json) : String :=
  value.prettyAt 0

example : (object [("a", array [natural 1]), ("b", array [])]).pretty
    = "\x7b\n  \"a\": [\n    1\n  ],\n  \"b\": []\n\x7d" := by decide +kernel

end Json

end FrameTiming

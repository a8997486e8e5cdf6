import FrameTiming.Text.Blank

/-! # Fields of an event line

A comma separates fields where the number of double quotes before it is even. A line with an odd
number of quotes has no fields: its last quote is never closed.
-/

namespace FrameTiming.Event

def prependToFirst (char : Char) : List (List Char) → List (List Char)
  | [] => [[char]]
  | field :: fields => (char :: field) :: fields

/-- The fields of the rest of a line, from a place that is between quotes or not. -/
def splitFieldsFrom (quoted : Bool) : List Char → Option (List (List Char))
  | [] => if quoted then none else some [[]]
  | char :: rest =>
      if char = ',' ∧ quoted = false then
        (splitFieldsFrom false rest).map ([] :: ·)
      else
        (splitFieldsFrom (if char = '"' then !quoted else quoted) rest).map (prependToFirst char)

def splitFields? (line : List Char) : Option (List (List Char)) :=
  splitFieldsFrom false line

def joinFields (fields : List (List Char)) : List Char :=
  [','].intercalate fields

example : splitFields? "a,b:\"c,d\",".toList = some ["a".toList, "b:\"c,d\"".toList, []] := by decide
example : splitFields? "a,\"b".toList = none := by decide

end FrameTiming.Event

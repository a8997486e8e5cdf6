/-! # Writing delimited records

One line for each record, its fields separated by commas. Only numbers and fixed words are written,
so no field ever needs quotes.
-/

namespace FrameTiming.Delimited

def line (fields : List String) : String :=
  ",".intercalate fields ++ "\n"

def text (records : List (List String)) : String :=
  String.join (records.map line)

example : text [["a", "b"], ["1", ""]] = "a,b\n1,\n" := by decide +kernel

end FrameTiming.Delimited

/-! # Blanks

The blank characters are those with the White_Space property, on all of Unicode. Texts are lists of
characters here, so that what is trimmed and what is kept can be stated by position.
-/

namespace FrameTiming.Text

def isBlank (char : Char) : Bool :=
  let code := char.toNat
  (0x09 ≤ code && code ≤ 0x0d) || code = 0x20 || code = 0x85 || code = 0xa0 || code = 0x1680
    || (0x2000 ≤ code && code ≤ 0x200a) || code = 0x2028 || code = 0x2029 || code = 0x202f
    || code = 0x205f || code = 0x3000

example : isBlank '\t' = true ∧ isBlank '\u00a0' = true ∧ isBlank '\u200b' = false := by decide

/-! ## Trimming -/

def trimEndWhile (drops : Char → Bool) (text : List Char) : List Char :=
  (text.reverse.dropWhile drops).reverse

def trim (text : List Char) : List Char :=
  trimEndWhile isBlank (text.dropWhile isBlank)

example : trim " a b\n".toList = "a b".toList ∧ trim "\u3000".toList = [] := by decide

theorem trimEndWhile_eq_self {drops : Char → Bool} {text : List Char}
    (kept : ∀ last ∈ text.getLast?, drops last = false) : trimEndWhile drops text = text := by
  have stops : text.reverse.dropWhile drops = text.reverse := by
    cases reversed : text.reverse with
    | nil => rfl
    | cons last rest =>
        have : drops last = false := kept last (by
          rw [List.getLast?_eq_head?_reverse, reversed]; simp)
        rw [List.dropWhile_cons_of_neg (by simp [this])]
  rw [trimEndWhile, stops, List.reverse_reverse]

/-- A text that neither starts nor ends with a blank is trimmed already. -/
theorem trim_eq_self {text : List Char} (starts : ∀ first ∈ text.head?, isBlank first = false)
    (ends : ∀ last ∈ text.getLast?, isBlank last = false) : trim text = text := by
  have start : text.dropWhile isBlank = text := by
    cases text with
    | nil => rfl
    | cons first rest => rw [List.dropWhile_cons_of_neg (by simp [starts first (by simp)])]
  rw [trim, start, trimEndWhile_eq_self ends]

/-! ## Splitting -/

def splitOnce? (separator : Char) : List Char → Option (List Char × List Char)
  | [] => none
  | char :: rest =>
      if char = separator then some ([], rest)
      else (splitOnce? separator rest).map fun (before, after) => (char :: before, after)

def splitAll (separator : Char) : List Char → List (List Char)
  | [] => [[]]
  | char :: rest =>
      if char = separator then [] :: splitAll separator rest
      else match splitAll separator rest with
        | [] => [[char]]
        | piece :: pieces => (char :: piece) :: pieces

def afterPrefix? (start text : List Char) : Option (List Char) :=
  if start.isPrefixOf text then some (text.drop start.length) else none

def beforeLast? (final : Char) (text : List Char) : Option (List Char) :=
  if text.getLast? = some final then some text.dropLast else none

example : splitOnce? ':' "a:b:c".toList = some ("a".toList, "b:c".toList) := by decide
example : splitAll ',' "a,,b".toList = ["a".toList, [], "b".toList] := by decide
example : afterPrefix? "0x".toList "0x1f".toList = some "1f".toList := by decide

end FrameTiming.Text

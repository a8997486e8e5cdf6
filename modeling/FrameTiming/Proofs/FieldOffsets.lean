import FrameTiming.Proofs.EventGrammar
import Mathlib.Algebra.Ring.Parity

/-! # The only way to split a line

Fields can be cut out of a line in one pass over it, which remembers where the open field begins: the
places are bytes, and every cut falls between two characters. What comes out is the only list of
fields that makes up the line, closes its quotes in every field and leaves no separating comma in any.
-/

namespace FrameTiming.Event

variable {quoted after : Bool} {line text : List Char} {fields : List (List Char)}

/-! ## Places in a text -/

def byteLength (text : List Char) : ℕ :=
  (text.map Char.utf8Size).sum

theorem byteLength_append (text rest : List Char) :
    byteLength (text ++ rest) = byteLength text + byteLength rest := by
  rw [byteLength, List.map_append, List.sum_append]
  rfl

theorem byteLength_singleton (char : Char) : byteLength [char] = char.utf8Size :=
  Nat.add_zero _

/-- The text before and behind a number of bytes. There is none if that place lies inside a character
or behind the end. -/
def splitAtByte? : ℕ → List Char → Option (List Char × List Char)
  | 0, text => some ([], text)
  | _ + 1, [] => none
  | offset + 1, char :: rest =>
      if char.utf8Size ≤ offset + 1 then
        (splitAtByte? (offset + 1 - char.utf8Size) rest).map fun (before, after) =>
          (char :: before, after)
      else
        none

def slice? (text : List Char) (start stop : ℕ) : Option (List Char) :=
  if start ≤ stop then do
    let (_, rest) ← splitAtByte? start text
    let (part, _) ← splitAtByte? (stop - start) rest
    return part
  else
    none

theorem splitAtByte?_append (text rest : List Char) :
    splitAtByte? (byteLength text) (text ++ rest) = some (text, rest) := by
  induction text with
  | nil => simp [byteLength, splitAtByte?]
  | cons char text induction =>
      have whole : byteLength (char :: text) = char.utf8Size + byteLength text := rfl
      obtain ⟨size, positive⟩ := Nat.exists_eq_add_one_of_ne_zero char.utf8Size_pos.ne'
      have long : byteLength (char :: text) = (size + byteLength text) + 1 := by omega
      have left : size + byteLength text + 1 - char.utf8Size = byteLength text := by omega
      rw [long, List.cons_append, splitAtByte?, if_pos (by omega), left, induction, Option.map_some]

theorem slice?_append (before piece rest : List Char) :
    slice? (before ++ (piece ++ rest)) (byteLength before)
      (byteLength before + byteLength piece) = some piece := by
  rw [slice?, if_pos (Nat.le_add_right _ _), splitAtByte?_append, Nat.add_sub_cancel_left]
  simp only [Option.bind_eq_bind, Option.bind_some, splitAtByte?_append, Option.pure_def]

/-! ## One pass over a line -/

/-- The fields that have been cut out, whether the place reached is between quotes, and where the open
field begins. -/
structure Cutting where
  fields : List (List Char)
  quoted : Bool
  start : ℕ

/-- The characters of a text, with the places at which they begin. -/
def charOffsets (offset : ℕ) : List Char → List (ℕ × Char)
  | [] => []
  | char :: rest => (offset, char) :: charOffsets (offset + char.utf8Size) rest

/-- A separating comma ends the open field, and the next one begins a byte behind it. -/
def cutStep (line : List Char) (cutting : Cutting) : ℕ × Char → Option Cutting
  | (offset, char) =>
      if char = '"' then
        some { cutting with quoted := !cutting.quoted }
      else if char = ',' ∧ cutting.quoted = false then do
        let field ← slice? line cutting.start offset
        return { cutting with fields := cutting.fields ++ [field], start := offset + 1 }
      else
        some cutting

/-- The end of a line ends the open field, unless a quote is still open. -/
def cutLast (line : List Char) (cutting : Cutting) : Option (Except EventFault (List (List Char))) :=
  if cutting.quoted then
    some (.error .unterminatedQuote)
  else do
    let field ← slice? line cutting.start (byteLength line)
    return .ok (cutting.fields ++ [field])

/-- The fields of a line, cut out in one pass. There is no result if a cut falls into a character. -/
def cutFields (line : List Char) : Option (Except EventFault (List (List Char))) :=
  (charOffsets 0 line).foldlM (cutStep line) ⟨[], false, 0⟩ >>= cutLast line

/-! ## Going on -/

/-- What comes out if some fields have been cut out and the open one has a part of its text, by the
fields that the rest of the line has. -/
def resumed (fields : List (List Char)) (piece : List Char) :
    Option (List (List Char)) → Except EventFault (List (List Char))
  | none => .error .unterminatedQuote
  | some rest => .ok (fields ++ piece.foldr prependToFirst rest)

theorem resumed_prependToFirst (fields : List (List Char)) (piece : List Char) (char : Char)
    (rest : Option (List (List Char))) :
    resumed fields piece (rest.map (prependToFirst char)) = resumed fields (piece ++ [char]) rest := by
  cases rest with
  | none => rfl
  | some rest =>
      rw [Option.map_some, resumed, resumed, List.foldr_append, List.foldr_cons, List.foldr_nil]

theorem resumed_separator (fields : List (List Char)) (piece : List Char)
    (rest : Option (List (List Char))) :
    resumed fields piece (rest.map ([] :: ·)) = resumed (fields ++ [piece]) [] rest := by
  cases rest with
  | none => rfl
  | some rest =>
      rw [Option.map_some, resumed, resumed, foldr_prependToFirst, List.append_nil, List.foldr_nil,
        List.append_assoc, List.singleton_append]

/-- A pass goes on from any place: in front of it lie the fields that have been cut out, with their
commas, and behind these the part of the open field. -/
theorem cutFields_resumed (line before piece rest : List Char) (fields : List (List Char))
    (quoted : Bool) (whole : line = before ++ (piece ++ rest)) :
    (charOffsets (byteLength before + byteLength piece) rest).foldlM (cutStep line)
        ⟨fields, quoted, byteLength before⟩ >>= cutLast line =
      some (resumed fields piece (splitFieldsFrom quoted rest)) := by
  induction rest generalizing before piece fields quoted with
  | nil =>
      have cut := slice?_append before piece []
      rw [← whole] at cut
      have length : byteLength line = byteLength before + byteLength piece := by
        rw [whole, List.append_nil, byteLength_append]
      cases quoted with
      | true => rfl
      | false =>
          simp [charOffsets, cutLast, length, cut, splitFieldsFrom, resumed, foldr_prependToFirst]
  | cons char rest induction =>
      rw [charOffsets, List.foldlM_cons, splitFieldsFrom]
      by_cases separator : char = ',' ∧ quoted = false
      · rcases separator with ⟨rfl, rfl⟩
        have cut := slice?_append before piece (',' :: rest)
        rw [← whole] at cut
        have behind : byteLength (before ++ (piece ++ [','])) =
            byteLength before + byteLength piece + 1 := by
          rw [byteLength_append, byteLength_append, ← Nat.add_assoc]
          rfl
        have step : cutStep line ⟨fields, false, byteLength before⟩
            (byteLength before + byteLength piece, ',') =
              some ⟨fields ++ [piece], false, byteLength (before ++ (piece ++ [',']))⟩ := by
          simp [cutStep, cut, behind]
        have next := induction (before ++ (piece ++ [','])) [] (fields ++ [piece]) false
          (by simp [whole])
        rw [step, if_pos ⟨rfl, rfl⟩, resumed_separator, ← next, behind]
        rfl
      · -- A character that does not separate joins the open field.
        have step : cutStep line ⟨fields, quoted, byteLength before⟩
            (byteLength before + byteLength piece, char) =
              some ⟨fields, if char = '"' then !quoted else quoted, byteLength before⟩ := by
          by_cases quote : char = '"'
          · simp [cutStep, quote]
          · simp [cutStep, quote, separator]
        have next := induction before (piece ++ [char]) fields
          (if char = '"' then !quoted else quoted) (by simp [whole])
        rw [byteLength_append, byteLength_singleton, ← Nat.add_assoc] at next
        rw [step, if_neg separator, resumed_prependToFirst, ← next]
        rfl

theorem cutFields_eq (line : List Char) :
    cutFields line = some ((splitFields? line).elim (.error .unterminatedQuote) .ok) := by
  have pass := cutFields_resumed line [] [] line [] false rfl
  rw [cutFields, splitFields?]
  refine pass.trans ?_
  cases splitFieldsFrom false line <;> rfl

example : cutFields "é,\"日,\",".toList = some (.ok ["é".toList, "\"日,\"".toList, []]) := by decide

/-! ## Fields that make up a line -/

/-- Fields that give a line when they are joined by commas. In each of them quotes come in pairs, and an
odd number of them comes before every comma. -/
structure MakeUp (fields : List (List Char)) (line : List Char) : Prop where
  joined : joinFields fields = line
  paired : ∀ field ∈ fields, Even (field.count '"')
  unseparated : ∀ field ∈ fields, ∀ before after, field = before ++ ',' :: after →
    ¬Even (before.count '"')

theorem betweenQuotes_nil (quoted : Bool) : (quoted ^^ betweenQuotes []) = quoted :=
  Bool.xor_false quoted

theorem betweenQuotes_cons (quoted : Bool) (char : Char) (text : List Char) :
    (quoted ^^ betweenQuotes (char :: text)) =
      ((if char = '"' then !quoted else quoted) ^^ betweenQuotes text) := by
  by_cases quote : char = '"'
  · rw [if_pos quote, quote, betweenQuotes, betweenQuotes, List.count_cons_self]
    simp only [Nat.even_add_one, decide_not, Bool.not_not, Bool.not_xor_not]
  · rw [if_neg quote, betweenQuotes, betweenQuotes, List.count_cons_of_ne quote]

theorem unbroken_cons_iff {char : Char} : Unbroken quoted (char :: text) after ↔
    (char = ',' → quoted = true) ∧ Unbroken (if char = '"' then !quoted else quoted) text after := by
  by_cases quote : char = '"'
  · rw [if_pos quote, quote]
    constructor
    · intro unbroken
      cases unbroken with
      | quote rest => exact ⟨fun comma => absurd comma (by decide), rest⟩
      | char noQuote => exact absurd rfl noQuote
    · rintro ⟨-, rest⟩
      exact .quote rest
  · rw [if_neg quote]
    constructor
    · intro unbroken
      cases unbroken with
      | quote => exact absurd rfl quote
      | char _ joins rest => exact ⟨joins, rest⟩
    · rintro ⟨joins, rest⟩
      exact .char quote joins rest

/-- No comma separates in a text if each of them stands between quotes. The text leads to a place that
its quotes tell. -/
theorem unbroken_iff : Unbroken quoted text after ↔
    (quoted ^^ betweenQuotes text) = after ∧
      ∀ before rest, text = before ++ ',' :: rest → (quoted ^^ betweenQuotes before) = true := by
  induction text generalizing quoted with
  | nil =>
      rw [betweenQuotes_nil]
      constructor
      · rintro ⟨⟩
        exact ⟨rfl, fun before rest whole => absurd whole (by simp)⟩
      · rintro ⟨rfl, -⟩
        exact .nil
  | cons char text induction =>
      rw [unbroken_cons_iff, induction, ← betweenQuotes_cons, and_left_comm]
      refine and_congr_right fun _ => ⟨?_, ?_⟩
      · rintro ⟨joins, others⟩ before rest whole
        cases before with
        | nil =>
            rw [betweenQuotes_nil]
            exact joins (List.cons.inj whole).1
        | cons first before =>
            rcases List.cons.inj whole with ⟨rfl, following⟩
            rw [betweenQuotes_cons]
            exact others before rest following
      · intro separates
        refine ⟨?_, fun before rest whole => ?_⟩
        · rintro rfl
          rw [← betweenQuotes_nil quoted]
          exact separates [] text rfl
        · rw [← betweenQuotes_cons]
          exact separates (char :: before) rest (congrArg (char :: ·) whole)

theorem makeUp_iff : MakeUp fields line ↔
    joinFields fields = line ∧ ∀ field ∈ fields, Unbroken false field false := by
  have each : ∀ field, Unbroken false field false ↔ Even (field.count '"') ∧
      ∀ before after, field = before ++ ',' :: after → ¬Even (before.count '"') := by
    intro field
    simp [unbroken_iff, betweenQuotes]
  simp only [each]
  constructor
  · intro makeUp
    exact ⟨makeUp.joined, fun field member =>
      ⟨makeUp.paired field member, makeUp.unseparated field member⟩⟩
  · rintro ⟨joined, each⟩
    exact ⟨joined, fun field member => (each field member).1,
      fun field member => (each field member).2⟩

theorem joinFields_nil_cons (first : List Char) (others : List (List Char)) :
    joinFields ([] :: first :: others) = ',' :: joinFields (first :: others) :=
  joinFields_cons_cons [] first others

theorem joinFields_prependToFirst (char : Char) (first : List Char) (others : List (List Char)) :
    joinFields (prependToFirst char (first :: others)) = char :: joinFields (first :: others) := by
  cases others with
  | nil => simp only [prependToFirst, joinFields_singleton]
  | cons next others => simp only [prependToFirst, joinFields_cons_cons, List.cons_append]

/-- The first field goes on from the place where splitting began, the other ones are whole. -/
theorem exists_of_splitFieldsFrom (split : splitFieldsFrom quoted line = some fields) :
    joinFields fields = line ∧ ∃ first others, fields = first :: others ∧
      Unbroken quoted first false ∧ ∀ field ∈ others, Unbroken false field false := by
  induction line generalizing quoted fields with
  | nil =>
      cases quoted with
      | true => cases split
      | false =>
          cases split
          exact ⟨joinFields_singleton [], [], [], rfl, .nil, List.forall_mem_nil _⟩
  | cons char rest induction =>
      rw [splitFieldsFrom] at split
      by_cases separator : char = ',' ∧ quoted = false
      · rw [if_pos separator] at split
        rcases separator with ⟨rfl, rfl⟩
        rcases Option.map_eq_some_iff.mp split with ⟨following, found, rfl⟩
        rcases induction found with ⟨joined, first, others, rfl, unbroken, whole⟩
        refine ⟨?_, [], first :: others, rfl, .nil, List.forall_mem_cons.mpr ⟨unbroken, whole⟩⟩
        rw [joinFields_nil_cons, joined]
      · rw [if_neg separator] at split
        rcases Option.map_eq_some_iff.mp split with ⟨following, found, rfl⟩
        rcases induction found with ⟨joined, first, others, rfl, unbroken, whole⟩
        refine ⟨?_, char :: first, others, rfl, unbroken_cons_iff.mpr ⟨?_, unbroken⟩, whole⟩
        · rw [joinFields_prependToFirst, joined]
        · intro comma
          by_contra outside
          exact separator ⟨comma, Bool.eq_false_iff.mpr outside⟩

/-- Splitting finds the only list of fields that makes up a line. -/
theorem splitFields?_eq_some_iff :
    splitFields? line = some fields ↔ fields ≠ [] ∧ MakeUp fields line := by
  rw [makeUp_iff]
  constructor
  · intro split
    rcases exists_of_splitFieldsFrom split with ⟨joined, first, others, rfl, unbroken, rest⟩
    exact ⟨List.cons_ne_nil _ _, joined, List.forall_mem_cons.mpr ⟨unbroken, rest⟩⟩
  · rintro ⟨present, rfl, unbroken⟩
    exact splitFields?_joinFields present unbroken

theorem makeUp_nil_iff : MakeUp [] line ↔ line = [] :=
  ⟨fun makeUp => makeUp.joined.symm,
    fun empty => ⟨empty.symm, List.forall_mem_nil _, List.forall_mem_nil _⟩⟩

theorem splitFields?_eq_none_iff : splitFields? line = none ↔ Odd (line.count '"') := by
  rw [splitFields?_eq, ← Nat.not_even_iff_odd]
  split_ifs with paired <;> simp [paired]

/-- Line ends hold no quotes. -/
theorem count_quote_trimEndWhile (line : List Char) :
    (Text.trimEndWhile endsLine line).count '"' = line.count '"' := by
  rcases Text.exists_eq_trimEndWhile_append endsLine line with ⟨ends, whole, dropped⟩
  have noQuote : ends.count '"' = 0 :=
    List.count_eq_zero.mpr fun member => absurd (dropped _ member) (by decide)
  conv_rhs => rw [whole, List.count_append, noQuote, Nat.add_zero]

/-- An event is refused for its quotes before anything else is looked at. -/
theorem parse_eq_unterminatedQuote_iff :
    parse line = .error .unterminatedQuote ↔ Odd (line.count '"') := by
  have other : ∀ fields, ¬Lacks fields .unterminatedQuote := nofun
  rw [parse_eq_error_iff, count_quote_trimEndWhile, Nat.not_even_iff_odd]
  simp [other]

/-- A line is split in one way or not at all. One pass that cuts fields out of its bytes never cuts into
a character. It fails exactly if the number of quotes is odd, and then the event on the line is refused
for that. Otherwise it gives the only fields that make up the line; an empty line has one empty field,
although no fields at all would make it up, too. -/
theorem fields_unique (line : List Char) :
    cutFields line = some ((splitFields? line).elim (.error .unterminatedQuote) .ok) ∧
      (splitFields? line = none ↔ Odd (line.count '"')) ∧
      (parse line = .error .unterminatedQuote ↔ Odd (line.count '"')) ∧
      (∀ fields, splitFields? line = some fields ↔ fields ≠ [] ∧ MakeUp fields line) ∧
      (MakeUp [] line ↔ line = []) :=
  ⟨cutFields_eq line, splitFields?_eq_none_iff, parse_eq_unterminatedQuote_iff,
    fun _ => splitFields?_eq_some_iff, makeUp_nil_iff⟩

end FrameTiming.Event

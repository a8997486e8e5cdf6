import FrameTiming.Event.Fields
import FrameTiming.Proofs.Text
import Mathlib.Algebra.Group.Nat.Even
import Mathlib.Tactic.SplitIfs

/-! # Fields on a line

Fields that are joined by commas are found again if no comma of a field stands outside quotes and
the quotes of each field come in pairs. The fields of a line are the pieces between the commas that
have an even number of quotes before them.
-/

namespace FrameTiming.Event

variable {quoted middle after : Bool} {text content : List Char}

/-! ## Texts without separators -/

/-- A text in which no comma separates fields. It leads from a place that is between quotes or not
to another such place. -/
inductive Unbroken : (quoted : Bool) → List Char → (after : Bool) → Prop
  | nil {quoted : Bool} : Unbroken quoted [] quoted
  | quote {quoted after : Bool} {text : List Char} (rest : Unbroken (!quoted) text after) :
      Unbroken quoted ('"' :: text) after
  | char {quoted after : Bool} {char : Char} {text : List Char} (noQuote : char ≠ '"')
      (joins : char = ',' → quoted = true) (rest : Unbroken quoted text after) :
      Unbroken quoted (char :: text) after

theorem Unbroken.append {rest : List Char} (first : Unbroken quoted text middle)
    (last : Unbroken middle rest after) : Unbroken quoted (text ++ rest) after := by
  induction first with
  | nil => exact last
  | quote _ induction => exact .quote (induction last)
  | char noQuote joins _ induction => exact .char noQuote joins (induction last)

theorem unbroken_of_noQuote (noQuote : '"' ∉ text) (joins : ',' ∈ text → quoted = true) :
    Unbroken quoted text quoted := by
  induction text with
  | nil => exact .nil
  | cons char text induction =>
      rw [List.mem_cons, not_or] at noQuote
      apply Unbroken.char (Ne.symm noQuote.1)
      · rintro rfl
        exact joins List.mem_cons_self
      · exact induction noQuote.2 fun member => joins (List.mem_cons_of_mem _ member)

def inQuotes (content : List Char) : List Char :=
  '"' :: (content ++ ['"'])

theorem trim_inQuotes (content : List Char) : Text.trim (inQuotes content) = inQuotes content := by
  apply Text.trim_eq_self
  · simp [inQuotes, Text.isBlank]
  · simp [inQuotes, Text.isBlank, List.getLast?_cons]

/-- Between quotes commas join. -/
theorem unbroken_inQuotes (noQuote : '"' ∉ content) : Unbroken false (inQuotes content) false := by
  have inside : Unbroken true content true := unbroken_of_noQuote noQuote fun _ => rfl
  exact .quote (inside.append (.quote .nil))

/-! ## Splitting -/

theorem foldr_prependToFirst (text field : List Char) (fields : List (List Char)) :
    text.foldr prependToFirst (field :: fields) = (text ++ field) :: fields := by
  induction text with
  | nil => rfl
  | cons char text induction => rw [List.foldr_cons, induction, prependToFirst, List.cons_append]

/-- An unbroken text goes into the first field. -/
theorem splitFieldsFrom_append (unbroken : Unbroken quoted text after) (rest : List Char) :
    splitFieldsFrom quoted (text ++ rest) =
      (splitFieldsFrom after rest).map fun fields => text.foldr prependToFirst fields := by
  induction unbroken with
  | nil => simp
  | quote _ induction => simp [splitFieldsFrom, induction, Function.comp_def]
  | @char quoted after char text noQuote joins _ induction =>
      have noSeparator : ¬(char = ',' ∧ quoted = false) := by
        rintro ⟨comma, outside⟩
        rw [joins comma] at outside
        cases outside
      simp [splitFieldsFrom, noSeparator, noQuote, induction, Function.comp_def]

theorem splitFieldsFrom_unbroken (unbroken : Unbroken false text false) :
    splitFieldsFrom false text = some [text] := by
  have split := splitFieldsFrom_append unbroken []
  rwa [List.append_nil, splitFieldsFrom, if_neg Bool.false_ne_true, Option.map_some,
    foldr_prependToFirst, List.append_nil] at split

theorem splitFieldsFrom_separator (unbroken : Unbroken false text false) (rest : List Char) :
    splitFieldsFrom false (text ++ ',' :: rest) =
      (splitFieldsFrom false rest).map (text :: ·) := by
  rw [splitFieldsFrom_append unbroken, splitFieldsFrom, if_pos ⟨rfl, rfl⟩, Option.map_map]
  congr 1
  funext fields
  rw [Function.comp_apply, foldr_prependToFirst, List.append_nil]

theorem joinFields_cons_cons (field next : List Char) (others : List (List Char)) :
    joinFields (field :: next :: others) = field ++ ',' :: joinFields (next :: others) := by
  simp [joinFields, List.intercalate_cons_cons]

theorem joinFields_singleton (field : List Char) : joinFields [field] = field :=
  List.intercalate_singleton

theorem mem_joinFields {fields : List (List Char)} {char : Char}
    (member : char ∈ joinFields fields) : char = ',' ∨ ∃ field ∈ fields, char ∈ field := by
  induction fields with
  | nil => cases member
  | cons field others induction =>
      cases others with
      | nil =>
          rw [joinFields_singleton] at member
          exact .inr ⟨field, List.mem_cons_self, member⟩
      | cons next others =>
          rw [joinFields_cons_cons, List.mem_append, List.mem_cons] at member
          rcases member with inField | comma | later
          · exact .inr ⟨field, List.mem_cons_self, inField⟩
          · exact .inl comma
          · exact (induction later).imp_right fun ⟨other, listed, inside⟩ =>
              ⟨other, List.mem_cons_of_mem _ listed, inside⟩

/-- Joined fields are split again. -/
theorem splitFields?_joinFields {fields : List (List Char)} (present : fields ≠ [])
    (unbroken : ∀ field ∈ fields, Unbroken false field false) :
    splitFields? (joinFields fields) = some fields := by
  induction fields with
  | nil => exact absurd rfl present
  | cons field others induction =>
      rw [List.forall_mem_cons] at unbroken
      cases others with
      | nil =>
          rw [joinFields_singleton]
          exact splitFieldsFrom_unbroken unbroken.1
      | cons next others =>
          have rest : splitFieldsFrom false (joinFields (next :: others)) = some (next :: others) :=
            induction (List.cons_ne_nil _ _) unbroken.2
          rw [joinFields_cons_cons, splitFields?, splitFieldsFrom_separator unbroken.1, rest,
            Option.map_some]

/-- What ends no field ends no line. -/
theorem ends_joinFields {drops : Char → Bool} (comma : drops ',' = false)
    {fields : List (List Char)}
    (ends : ∀ field ∈ fields, ∀ last ∈ field.getLast?, drops last = false) :
    ∀ last ∈ (joinFields fields).getLast?, drops last = false := by
  induction fields with
  | nil => simp [joinFields]
  | cons field others induction =>
      rw [List.forall_mem_cons] at ends
      cases others with
      | nil =>
          rw [joinFields_singleton]
          exact ends.1
      | cons next others =>
          rw [joinFields_cons_cons]
          exact Text.ends_append_cons comma (induction ends.2)

/-! ## Splitting by position -/

/-- A comma with an even number of quotes before it. -/
def separates (line : List Char) : Char × ℕ → Bool :=
  fun (char, position) => char = ',' ∧ Even ((line.take position).count '"')

/-- The pieces of a line between its separating commas. -/
def pieces (line : List Char) : List (List Char) :=
  (line.zipIdx.splitOnP (separates line)).map fun piece => piece.map Prod.fst

theorem pieces_ne_nil (line : List Char) : pieces line ≠ [] := by
  rw [pieces, ne_eq, List.map_eq_nil_iff]
  exact List.splitOnP_ne_nil _ _

/-- A place is between quotes if an odd number of them comes before it. -/
def betweenQuotes (before : List Char) : Bool :=
  !decide (Even (before.count '"'))

theorem betweenQuotes_append_singleton (before : List Char) (char : Char) :
    betweenQuotes (before ++ [char]) =
      if char = '"' then !betweenQuotes before else betweenQuotes before := by
  by_cases quote : char = '"'
  · rw [if_pos quote, quote]
    simp only [betweenQuotes, List.count_append, List.count_singleton_self, Nat.even_add_one,
      decide_not]
  · have none : [char].count '"' = 0 := List.count_eq_zero.mpr (by simpa using Ne.symm quote)
    rw [if_neg quote, betweenQuotes, betweenQuotes, List.count_append, none, Nat.add_zero]

/-- Splitting goes on behind some part of a line. -/
theorem splitFieldsFrom_betweenQuotes (before rest : List Char) :
    splitFieldsFrom (betweenQuotes before) rest =
      if Even ((before ++ rest).count '"') then
        some (((rest.zipIdx before.length).splitOnP (separates (before ++ rest))).map
          fun piece => piece.map Prod.fst)
      else none := by
  induction rest generalizing before with
  | nil =>
      rw [splitFieldsFrom, List.append_nil, List.zipIdx_nil, List.splitOnP_nil]
      by_cases even : Even (before.count '"') <;> simp [betweenQuotes, even]
  | cons char rest induction =>
      have next := induction (before ++ [char])
      rw [List.append_assoc, List.singleton_append, List.length_append, List.length_singleton,
        betweenQuotes_append_singleton] at next
      have here : separates (before ++ char :: rest) (char, before.length) =
          decide (char = ',' ∧ betweenQuotes before = false) := by
        simp [separates, betweenQuotes]
      rw [splitFieldsFrom, List.zipIdx_cons, List.splitOnP_cons_eq_if_modifyHead, here]
      by_cases separator : char = ',' ∧ betweenQuotes before = false
      · have noQuote : char ≠ '"' := by
          rw [separator.1]
          decide
        rw [if_neg noQuote, separator.2] at next
        rw [if_pos separator, if_pos (decide_eq_true separator), next]
        split_ifs <;> rfl
      · rw [if_neg separator, decide_eq_false separator, if_neg Bool.false_ne_true, next]
        rcases List.exists_cons_of_ne_nil (List.splitOnP_ne_nil
          (separates (before ++ char :: rest)) (rest.zipIdx (before.length + 1))) with
          ⟨piece, others, split⟩
        rw [split]
        split_ifs <;> rfl

/-- A line is split by position if its quotes come in pairs. -/
theorem splitFields?_eq (line : List Char) :
    splitFields? line = if Even (line.count '"') then some (pieces line) else none :=
  splitFieldsFrom_betweenQuotes [] line

end FrameTiming.Event

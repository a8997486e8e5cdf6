import FrameTiming.Text.Blank
import Mathlib.Data.List.TakeWhile
import Mathlib.Data.Nat.Notation
import Mathlib.Tactic.SplitIfs

/-! # Pieces of texts

What is put together with separators, marks and quotes is taken apart again.
-/

namespace FrameTiming.Text

/-! ## Pieces between separators -/

variable {separator : Char}

theorem splitAll_ne_nil (text : List Char) : splitAll separator text ≠ [] := by
  cases text with
  | nil => exact List.cons_ne_nil _ _
  | cons char rest =>
      rw [splitAll]
      split
      · exact List.cons_ne_nil _ _
      · split <;> exact List.cons_ne_nil _ _

theorem splitAll_of_not_mem {text : List Char} (absent : separator ∉ text) :
    splitAll separator text = [text] := by
  induction text with
  | nil => rfl
  | cons char rest induction =>
      rw [List.mem_cons, not_or] at absent
      rw [splitAll, if_neg (Ne.symm absent.1), induction absent.2]

theorem splitAll_cons_of_ne {char : Char} (differs : char ≠ separator) {text piece : List Char}
    {pieces : List (List Char)} (split : splitAll separator text = piece :: pieces) :
    splitAll separator (char :: text) = (char :: piece) :: pieces := by
  rw [splitAll, if_neg differs, split]

/-- Only the last piece grows with what is appended. -/
theorem exists_splitAll_append (separator : Char) (text : List Char) :
    ∃ pieces last, ∀ rest, separator ∉ rest →
      splitAll separator (text ++ rest) = pieces ++ [last ++ rest] := by
  induction text with
  | nil => exact ⟨[], [], fun rest absent => splitAll_of_not_mem absent⟩
  | cons char text induction =>
      rcases induction with ⟨pieces, last, split⟩
      by_cases same : char = separator
      · refine ⟨[] :: pieces, last, ?_⟩
        intro rest absent
        rw [List.cons_append, splitAll, if_pos same, split rest absent, List.cons_append]
      · cases pieces with
        | nil =>
            refine ⟨[], char :: last, ?_⟩
            intro rest absent
            exact splitAll_cons_of_ne same (split rest absent)
        | cons piece pieces =>
            refine ⟨(char :: piece) :: pieces, last, ?_⟩
            intro rest absent
            exact splitAll_cons_of_ne same (split rest absent)

/-- What stands in front of a separator and behind it is split by itself. -/
theorem splitAll_append_cons (separator : Char) (text rest : List Char) :
    splitAll separator (text ++ separator :: rest) =
      splitAll separator text ++ splitAll separator rest := by
  induction text with
  | nil =>
      have empty : splitAll separator [] = [[]] := rfl
      rw [List.nil_append, empty, splitAll, if_pos rfl, List.singleton_append]
  | cons char text induction =>
      by_cases same : char = separator
      · rw [List.cons_append, splitAll, if_pos same, induction, splitAll, if_pos same,
          List.cons_append]
      · rcases List.exists_cons_of_ne_nil (@splitAll_ne_nil separator text) with
          ⟨piece, pieces, split⟩
        rw [split, List.cons_append] at induction
        rw [splitAll_cons_of_ne same split]
        exact splitAll_cons_of_ne same induction

theorem splitAll_append_separator {text : List Char} (absent : separator ∉ text)
    (rest : List Char) :
    splitAll separator (text ++ separator :: rest) = text :: splitAll separator rest := by
  rw [splitAll_append_cons, splitAll_of_not_mem absent, List.singleton_append]

/-- Pieces without the separator are found again between separators. -/
theorem splitAll_intercalate {pieces : List (List Char)} (present : pieces ≠ [])
    (absent : ∀ piece ∈ pieces, separator ∉ piece) :
    splitAll separator ([separator].intercalate pieces) = pieces := by
  induction pieces with
  | nil => exact absurd rfl present
  | cons piece pieces induction =>
      rw [List.forall_mem_cons] at absent
      cases pieces with
      | nil => rw [List.intercalate_singleton, splitAll_of_not_mem absent.1]
      | cons other more =>
          rw [List.intercalate_cons_cons, List.append_assoc, List.singleton_append,
            splitAll_append_separator absent.1, induction (List.cons_ne_nil _ _) absent.2]

theorem intercalate_splitAll (text : List Char) :
    [separator].intercalate (splitAll separator text) = text := by
  induction text with
  | nil => rfl
  | cons char rest induction =>
      rcases List.exists_cons_of_ne_nil (@splitAll_ne_nil separator rest) with
        ⟨piece, pieces, split⟩
      rw [split] at induction
      by_cases same : char = separator
      · rw [splitAll, if_pos same, split, List.intercalate_cons_cons, induction, same]
        rfl
      · rw [splitAll_cons_of_ne same split]
        cases pieces with
        | nil =>
            rw [List.intercalate_singleton] at induction ⊢
            rw [induction]
        | cons other more =>
            rw [List.intercalate_cons_cons] at induction ⊢
            rw [← induction]
            rfl

theorem mem_of_mem_splitAll {text piece : List Char} (member : piece ∈ splitAll separator text) :
    ∀ char ∈ piece, char ∈ text ∧ char ≠ separator := by
  induction text generalizing piece with
  | nil =>
      rw [splitAll, List.mem_singleton] at member
      rw [member]
      exact fun _ none => absurd none List.not_mem_nil
  | cons char rest induction =>
      by_cases same : char = separator
      · rw [splitAll, if_pos same, List.mem_cons] at member
        rcases member with rfl | later
        · exact fun _ none => absurd none List.not_mem_nil
        · exact fun other inside => (induction later other inside).imp_left (List.mem_cons_of_mem _)
      · rcases List.exists_cons_of_ne_nil (@splitAll_ne_nil separator rest) with
          ⟨first, others, split⟩
        rw [splitAll_cons_of_ne same split, List.mem_cons] at member
        rw [split] at induction
        rcases member with rfl | later
        · intro other inside
          rcases List.mem_cons.mp inside with rfl | inRest
          · exact ⟨List.mem_cons_self, same⟩
          · exact (induction List.mem_cons_self other inRest).imp_left (List.mem_cons_of_mem _)
        · intro other inside
          exact (induction (List.mem_cons_of_mem _ later) other inside).imp_left
            (List.mem_cons_of_mem _)

/-- Pieces are those between separators exactly if joining them gives the text and none of them
has a separator. -/
theorem splitAll_eq_iff {text : List Char} {pieces : List (List Char)} :
    splitAll separator text = pieces ↔
      pieces ≠ [] ∧ (∀ piece ∈ pieces, separator ∉ piece) ∧
        text = [separator].intercalate pieces := by
  constructor
  · rintro rfl
    refine ⟨splitAll_ne_nil text, ?_, (intercalate_splitAll text).symm⟩
    intro piece member inside
    exact (mem_of_mem_splitAll member separator inside).2 rfl
  · rintro ⟨present, absent, rfl⟩
    exact splitAll_intercalate present absent

/-! ## Ends -/

variable {drops : Char → Bool}

theorem ends_trimEndWhile (text : List Char) :
    ∀ last ∈ (trimEndWhile drops text).getLast?, drops last = false := by
  intro last isLast
  rw [trimEndWhile, List.getLast?_reverse] at isLast
  have stops := List.head?_dropWhile_not drops text.reverse
  rw [Option.mem_def.mp isLast] at stops
  simpa using stops

/-- What is dropped at the end has been there. -/
theorem exists_eq_trimEndWhile_append (drops : Char → Bool) (text : List Char) :
    ∃ dropped, text = trimEndWhile drops text ++ dropped ∧ ∀ char ∈ dropped, drops char = true := by
  refine ⟨(text.reverse.takeWhile drops).reverse, ?_, ?_⟩
  · rw [trimEndWhile, ← List.reverse_append, List.takeWhile_append_dropWhile, List.reverse_reverse]
  · intro char member
    exact List.mem_takeWhile_imp (List.mem_reverse.mp member)

theorem trim_eq_nil_iff {text : List Char} :
    trim text = [] ↔ ∀ char ∈ text, isBlank char = true := by
  rw [trim, trimEndWhile, List.reverse_eq_nil_iff, List.dropWhile_eq_nil_iff]
  constructor
  · intro blank char member
    rw [← @List.takeWhile_append_dropWhile _ isBlank text, List.mem_append] at member
    rcases member with dropped | kept
    · exact List.mem_takeWhile_imp dropped
    · exact blank char (List.mem_reverse.mpr kept)
  · intro blank char member
    exact blank char ((List.dropWhile_sublist _).subset (List.mem_reverse.mp member))

theorem ends_of_trim_eq_self {text : List Char} (trimmed : trim text = text) :
    ∀ last ∈ text.getLast?, isBlank last = false := by
  rw [← trimmed]
  exact ends_trimEndWhile _

theorem ends_append_cons {before after : List Char} {char : Char} (kept : drops char = false)
    (ends : ∀ last ∈ after.getLast?, drops last = false) :
    ∀ last ∈ (before ++ char :: after).getLast?, drops last = false := by
  intro last isLast
  rw [List.getLast?_append, List.getLast?_cons, Option.some_or, Option.mem_some_iff] at isLast
  cases inAfter : after.getLast? with
  | none =>
      rw [inAfter] at isLast
      rwa [← isLast]
  | some final =>
      rw [inAfter] at isLast
      rw [← isLast]
      exact ends final inAfter

theorem splitOnce?_append {before : List Char} (absent : separator ∉ before) (after : List Char) :
    splitOnce? separator (before ++ separator :: after) = some (before, after) := by
  induction before with
  | nil => rw [List.nil_append, splitOnce?, if_pos rfl]
  | cons char before induction =>
      rw [List.mem_cons, not_or] at absent
      rw [List.cons_append, splitOnce?, if_neg (Ne.symm absent.1), induction absent.2]
      rfl

theorem splitOnce?_eq_some_iff {text before after : List Char} :
    splitOnce? separator text = some (before, after) ↔
      text = before ++ separator :: after ∧ separator ∉ before := by
  constructor
  · intro split
    induction text generalizing before with
    | nil => cases split
    | cons char text induction =>
        rw [splitOnce?] at split
        split_ifs at split with same
        · cases split
          exact ⟨by rw [same]; rfl, List.not_mem_nil⟩
        · rcases Option.map_eq_some_iff.mp split with ⟨⟨front, rest⟩, found, made⟩
          cases made
          rcases induction found with ⟨rfl, absent⟩
          exact ⟨rfl, List.not_mem_cons_of_ne_of_not_mem (Ne.symm same) absent⟩
  · rintro ⟨rfl, absent⟩
    exact splitOnce?_append absent after

theorem beforeLast?_append (final : Char) (text : List Char) :
    beforeLast? final (text ++ [final]) = some text := by
  simp [beforeLast?]

theorem beforeLast?_eq_some_iff {final : Char} {text front : List Char} :
    beforeLast? final text = some front ↔ text = front ++ [final] := by
  constructor
  · intro ended
    unfold beforeLast? at ended
    split_ifs at ended with isLast
    rcases List.getLast?_eq_some_iff.mp isLast with ⟨others, rfl⟩
    rw [← Option.some.inj ended, List.dropLast_concat]
  · rintro rfl
    exact beforeLast?_append final front

theorem afterPrefix?_append (start rest : List Char) :
    afterPrefix? start (start ++ rest) = some rest := by
  simp [afterPrefix?]

theorem afterPrefix?_eq_some_iff {start text rest : List Char} :
    afterPrefix? start text = some rest ↔ text = start ++ rest := by
  constructor
  · intro found
    unfold afterPrefix? at found
    split_ifs at found with prefixed
    rcases List.isPrefixOf_iff_prefix.mp prefixed with ⟨other, rfl⟩
    rw [← Option.some.inj found, List.drop_left]
  · rintro rfl
    exact afterPrefix?_append start rest

theorem afterPrefix?_eq_none_iff {start text : List Char} :
    afterPrefix? start text = none ↔ ¬start <+: text := by
  rw [afterPrefix?, ite_eq_right_iff]
  simp [List.isPrefixOf_iff_prefix]

/-- A text without a character of the prefix does not start with it. -/
theorem afterPrefix?_of_not_mem {start text : List Char} {char : Char} (inStart : char ∈ start)
    (absent : char ∉ text) : afterPrefix? start text = none := by
  rw [afterPrefix?, if_neg]
  intro prefixed
  exact absent ((List.isPrefixOf_iff_prefix.mp prefixed).subset inStart)

end FrameTiming.Text

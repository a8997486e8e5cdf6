import FrameTiming.Path
import FrameTiming.Proofs.Text
import Mathlib.Data.Nat.Notation
import Mathlib.Tactic.SplitIfs

/-! # Segments of paths

What is appended to a path without a slash stays in its last segment, and names without slashes that
are joined by slashes are the segments of the result.
-/

namespace FrameTiming

/-! ## Segments -/

namespace Path

theorem isAbsolute_append (text : String) {rest : String} (absent : '/' ∉ rest.toList) :
    isAbsolute ⟨text ++ rest⟩ = isAbsolute ⟨text⟩ := by
  rw [isAbsolute, isAbsolute, String.toList_append]
  cases text.toList with
  | nil =>
      have start : rest.toList.head? ≠ some '/' := fun slash => absent (List.mem_of_head? slash)
      simp [start]
  | cons first others => rfl

theorem segments_eq (path : Path) :
    path.segments = if path.isAbsolute then
        ((Text.splitAll '/' path.text.toList).map String.ofList).tail
      else (Text.splitAll '/' path.text.toList).map String.ofList :=
  rfl

/-- What stands behind the last slash. -/
def lastSegment (path : Path) : String :=
  String.ofList ((Text.splitAll '/' path.text.toList).getLastD [])

theorem lastSegment_join (directory path : Path) :
    (directory.join path).lastSegment = path.lastSegment := by
  have behind : ∀ start : String, lastSegment ⟨start ++ "/" ++ path.text⟩ = path.lastSegment := by
    intro start
    have characters : (start ++ "/" ++ path.text).toList =
        start.toList ++ '/' :: path.text.toList := by
      simp
    rw [lastSegment, lastSegment, characters, Text.splitAll_append_cons, List.getLastD_eq_getLast?,
      List.getLastD_eq_getLast?, List.getLast?_append,
      List.getLast?_eq_some_getLast (Text.splitAll_ne_nil path.text.toList), Option.some_or]
  rw [join]
  split_ifs with absolute closed
  · rfl
  · rcases closed with empty | slash
    · rw [empty, String.empty_append]
    · rcases List.getLast?_eq_some_iff.mp slash with ⟨start, characters⟩
      have same : directory.text = String.ofList start ++ "/" := by
        rw [← String.toList_inj, characters]
        simp
      rw [same]
      exact behind _
  · exact behind _

/-- Only the last segment grows with what is appended. -/
theorem exists_segments_append (text : String) :
    ∃ names, ∀ rest : String, '/' ∉ rest.toList →
      segments ⟨text ++ rest⟩ = names ++ [lastSegment ⟨text⟩ ++ rest] := by
  rcases Text.exists_splitAll_append '/' text.toList with ⟨pieces, last, split⟩
  have strings : ∀ rest : String, '/' ∉ rest.toList →
      (Text.splitAll '/' (text ++ rest).toList).map String.ofList =
        pieces.map String.ofList ++ [lastSegment ⟨text⟩ ++ rest] := by
    intro rest absent
    have whole := split [] List.not_mem_nil
    rw [List.append_nil, List.append_nil] at whole
    rw [String.toList_append, split rest.toList absent, List.map_append, lastSegment, whole]
    simp [String.ofList_append]
  by_cases absolute : isAbsolute ⟨text⟩ = true
  · have several : pieces.map String.ofList ≠ [] := by
      intro none
      rw [List.map_eq_nil_iff] at none
      have whole := split [] List.not_mem_nil
      rw [isAbsolute, decide_eq_true_iff, List.head?_eq_some_iff] at absolute
      rcases absolute with ⟨rest, characters⟩
      rw [List.append_nil, characters, Text.splitAll, if_pos rfl, none, List.nil_append] at whole
      exact Text.splitAll_ne_nil rest (List.cons.inj whole).2
    refine ⟨(pieces.map String.ofList).tail, ?_⟩
    intro rest absent
    rw [segments_eq, isAbsolute_append text absent, if_pos absolute, strings rest absent,
      List.tail_append_of_ne_nil several]
  · refine ⟨pieces.map String.ofList, ?_⟩
    intro rest absent
    rw [segments_eq, isAbsolute_append text absent, if_neg absolute, strings rest absent]

theorem mem_of_mem_segments {path : Path} {segment : String} (member : segment ∈ path.segments) :
    ∀ char ∈ segment.toList, char ∈ path.text.toList ∧ char ≠ '/' := by
  have inPieces : segment ∈ (Text.splitAll '/' path.text.toList).map String.ofList := by
    rw [segments_eq] at member
    split_ifs at member
    · exact List.mem_of_mem_tail member
    · exact member
  rcases List.mem_map.mp inPieces with ⟨piece, split, rfl⟩
  rw [String.toList_ofList]
  exact Text.mem_of_mem_splitAll split

/-- Appending to a name appends to the path of its file in a directory. -/
theorem join_append (directory : Path) (name : String) {rest : String}
    (absent : '/' ∉ rest.toList) :
    directory.join ⟨name ++ rest⟩ = ⟨(directory.join ⟨name⟩).text ++ rest⟩ := by
  rw [join, join, isAbsolute_append name absent]
  split_ifs
  · rfl
  · rw [String.append_assoc]
  · rw [String.append_assoc, String.append_assoc, String.append_assoc]

theorem segments_absolute {names : List String} (present : names ≠ [])
    (plain : ∀ name ∈ names, '/' ∉ name.toList) :
    segments ⟨"/" ++ "/".intercalate names⟩ = names := by
  have characters : ("/" ++ "/".intercalate names).toList =
      '/' :: ['/'].intercalate (names.map String.toList) := by
    rw [String.toList_append, String.toList_intercalate]
    rfl
  have absolute : isAbsolute ⟨"/" ++ "/".intercalate names⟩ = true := by
    rw [isAbsolute, characters]
    rfl
  have pieces : Text.splitAll '/' (['/'].intercalate (names.map String.toList)) =
      names.map String.toList := by
    apply Text.splitAll_intercalate (by simpa using present)
    intro piece member
    rcases List.mem_map.mp member with ⟨name, inside, rfl⟩
    exact plain name inside
  rw [segments_eq, if_pos absolute, characters, Text.splitAll, if_pos rfl, pieces]
  simp

end Path

end FrameTiming

import Mathlib.Data.List.Pairwise

/-! # Stable sorting

Sorting keeps the order of elements that tie.
-/

namespace FrameTiming

variable {α : Type} {le : α → α → Bool}

/-- Elements that tie stand in the sorted list as they stood before. -/
theorem filter_mergeSort (trans : ∀ first second third, le first second → le second third →
      le first third) (total : ∀ left right, le left right || le right left)
    {tied : α → Bool} (ties : ∀ left right, tied left → tied right → le left right)
    (values : List α) : (values.mergeSort le).filter tied = values.filter tied := by
  have pairwise : (values.filter tied).Pairwise fun left right => le left right := by
    apply List.pairwise_of_forall_mem_list
    intro left leftMem right rightMem
    exact ties left right (List.mem_filter.mp leftMem).2 (List.mem_filter.mp rightMem).2
  have kept : (values.filter tied).Sublist (values.mergeSort le) :=
    List.sublist_mergeSort trans total pairwise List.filter_sublist
  have keptTied : (values.filter tied).Sublist ((values.mergeSort le).filter tied) := by
    have filtered := kept.filter tied
    simpa only [List.filter_filter, Bool.and_self] using filtered
  have sameLength : (values.filter tied).length = ((values.mergeSort le).filter tied).length :=
    ((List.mergeSort_perm values le).filter tied).length_eq.symm
  exact (keptTied.eq_of_length sameLength).symm

/-- Numbered elements are sorted by what they are and, where that ties, by their number. -/
theorem pairwise_mergeSort_numbered (trans : ∀ first second third, le first second →
      le second third → le first third) (total : ∀ left right, le left right || le right left)
    {numbered : List (ℕ × α)} (increasing : numbered.Pairwise fun left right => left.1 < right.1) :
    (numbered.mergeSort fun left right => le left.2 right.2).Pairwise fun left right =>
      le left.2 right.2 ∧ (le right.2 left.2 → left.1 < right.1) := by
  have sortedTrans : ∀ first second third : ℕ × α, le first.2 second.2 → le second.2 third.2 →
      le first.2 third.2 := fun first second third => trans first.2 second.2 third.2
  have sortedTotal : ∀ left right : ℕ × α, le left.2 right.2 || le right.2 left.2 :=
    fun left right => total left.2 right.2
  have sorted := List.pairwise_mergeSort sortedTrans sortedTotal numbered
  rw [List.pairwise_iff_forall_sublist] at sorted increasing ⊢
  intro left right inOrder
  have before := sorted inOrder
  refine ⟨before, ?_⟩
  intro after
  -- Both tie with the left one, so they stand in the list that was sorted in the same order.
  let tied : ℕ × α → Bool := fun other => le left.2 other.2 && le other.2 left.2
  have ties : ∀ first second : ℕ × α, tied first → tied second → le first.2 second.2 := by
    intro first second firstTied secondTied
    simp only [tied, Bool.and_eq_true] at firstTied secondTied
    exact trans _ _ _ firstTied.2 secondTied.1
  have reflexive : le left.2 left.2 = true := by simpa using total left.2 left.2
  have filtered := inOrder.filter tied
  rw [filter_mergeSort sortedTrans sortedTotal ties] at filtered
  have both : [left, right].filter tied = [left, right] := by
    simp [tied, reflexive, before, after]
  rw [both] at filtered
  exact increasing (filtered.trans List.filter_sublist)

end FrameTiming

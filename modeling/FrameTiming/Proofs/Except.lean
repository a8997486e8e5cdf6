import Mathlib.Data.List.Forall2
import Mathlib.Data.Nat.Notation

/-! # Computations that may fail -/

namespace FrameTiming

variable {ε α β : Type}

/-- Steps in a row succeed exactly if each of them does. -/
theorem bind_eq_ok_iff {first : Except ε α} {next : α → Except ε β} {result : β} :
    first >>= next = .ok result ↔ ∃ value, first = .ok value ∧ next value = .ok result := by
  cases first with
  | error error => simp [bind, Except.bind]
  | ok value => simp [bind, Except.bind]

theorem bind_eq_error_iff {first : Except ε α} {next : α → Except ε β} {error : ε} :
    first >>= next = .error error ↔
      first = .error error ∨ ∃ value, first = .ok value ∧ next value = .error error := by
  cases first with
  | error error => simp [bind, Except.bind]
  | ok value => simp [bind, Except.bind]

theorem map_eq_ok_iff {outcome : Except ε α} {change : α → β} {result : β} :
    outcome.map change = .ok result ↔ ∃ value, outcome = .ok value ∧ result = change value := by
  cases outcome with
  | error error => simp [Except.map]
  | ok value => simp [Except.map, eq_comm]

theorem map_eq_error_iff {outcome : Except ε α} {change : α → β} {error : ε} :
    outcome.map change = .error error ↔ outcome = .error error := by
  cases outcome <;> simp [Except.map]

theorem mapError_eq_ok_iff {ε' : Type} {outcome : Except ε α} {change : ε → ε'} {result : α} :
    outcome.mapError change = .ok result ↔ outcome = .ok result := by
  cases outcome <;> simp [Except.mapError]

theorem mapError_eq_error_iff {ε' : Type} {outcome : Except ε α} {change : ε → ε'} {error : ε'} :
    outcome.mapError change = .error error ↔
      ∃ fault, outcome = .error fault ∧ error = change fault := by
  cases outcome <;> simp [Except.mapError, eq_comm]

/-- A computation over a list succeeds exactly if it does for each element. -/
theorem mapM_eq_ok_iff {compute : α → Except ε β} {values : List α} {results : List β} :
    values.mapM compute = .ok results ↔
      List.Forall₂ (fun value result => compute value = .ok result) values results := by
  induction values generalizing results with
  | nil => simp [pure, Except.pure, eq_comm]
  | cons first rest induction =>
      simp only [List.mapM_cons, bind_eq_ok_iff, induction]
      constructor
      · rintro ⟨head, found, tail, others, made⟩
        cases made
        exact .cons found others
      · rintro (_ | ⟨found, others⟩)
        exact ⟨_, found, _, others, rfl⟩

/-- Every result was computed from an element. -/
theorem exists_of_mem_mapM {compute : α → Except ε β} {values : List α} {results : List β}
    (computed : values.mapM compute = .ok results) {result : β} (member : result ∈ results) :
    ∃ value ∈ values, compute value = .ok result := by
  have each := mapM_eq_ok_iff.mp computed
  clear computed
  induction each with
  | nil => cases member
  | cons found _ induction =>
      rcases List.mem_cons.mp member with rfl | inside
      · exact ⟨_, List.mem_cons_self, found⟩
      · rcases induction inside with ⟨value, later, made⟩
        exact ⟨value, List.mem_cons_of_mem _ later, made⟩

/-- Every element has a result. -/
theorem exists_mem_of_mapM {compute : α → Except ε β} {values : List α} {results : List β}
    (computed : values.mapM compute = .ok results) {value : α} (member : value ∈ values) :
    ∃ result ∈ results, compute value = .ok result := by
  have each := mapM_eq_ok_iff.mp computed
  clear computed
  induction each with
  | nil => cases member
  | cons found _ induction =>
      rcases List.mem_cons.mp member with rfl | inside
      · exact ⟨_, List.mem_cons_self, found⟩
      · rcases induction inside with ⟨result, later, made⟩
        exact ⟨result, List.mem_cons_of_mem _ later, made⟩

theorem mapM_succeeds {compute : α → Except ε β} {values : List α}
    (succeeds : ∀ value ∈ values, ∃ result, compute value = .ok result) :
    ∃ results, values.mapM compute = .ok results := by
  induction values with
  | nil => exact ⟨[], rfl⟩
  | cons first rest induction =>
      rw [List.forall_mem_cons] at succeeds
      rcases succeeds.1 with ⟨result, found⟩
      rcases induction succeeds.2 with ⟨results, others⟩
      refine ⟨result :: results, ?_⟩
      rw [List.mapM_cons, found, others]
      rfl

theorem mapM_range_eq_ok {count : ℕ} {compute : ℕ → Except ε α}
    (succeeds : ∀ index < count, ∃ result, compute index = .ok result) :
    ∃ results : Vector α count, (Vector.range count).mapM compute = .ok results ∧
      ∀ index (within : index < count), compute index = .ok results[index] := by
  induction count with
  | zero => exact ⟨#v[], Vector.mapM_mk_empty, by simp⟩
  | succ count induction =>
      rcases induction fun index within => succeeds index (by omega) with
        ⟨results, computed, elements⟩
      rcases succeeds count (by omega) with ⟨last, lastComputed⟩
      refine ⟨results ++ #v[last], ?_, ?_⟩
      · have single : (#v[count]).mapM compute = .ok #v[last] := by
          apply Vector.map_toArray_inj.mp
          rw [Vector.toArray_mapM, Vector.toArray_mk, List.mapM_toArray, List.mapM_cons,
            List.mapM_nil, lastComputed]
          rfl
        rw [Vector.range_succ, Vector.mapM_append, computed, single]
        rfl
      · intro index within
        rcases Nat.lt_succ_iff_lt_or_eq.mp within with before | rfl
        · rw [Vector.getElem_append_left before]
          exact elements index before
        · rw [Vector.getElem_append_right within (Nat.le_refl _)]
          simpa using lastComputed

end FrameTiming

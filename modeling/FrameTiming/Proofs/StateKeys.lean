import FrameTiming.Document
import FrameTiming.Proofs.Delimited
import FrameTiming.Proofs.RunNumbers
import FrameTiming.Proofs.StateTime
import Mathlib.Data.List.Sort
import Mathlib.Data.String.Basic

/-! # States as keys

A document names a state by the text of its number. Different states have different texts: however the
times are entered, none takes the place of another one. The members stand in the order of their texts,
which is not that of the numbers.
-/

namespace FrameTiming

open Text (Utf8.encode)

/-! ## Members of an object -/

namespace Json

variable {key : String} {value : Json} {members entries : List (String × Json)}

/-- The keys of an object, in the order in which they are written. -/
def keys : Json → List String
  | .object members => members.map (·.1)
  | _ => []

/-- What an object has under a key. -/
def member? (key : String) : Json → Option Json
  | .object members => members.lookup key
  | _ => none

/-- Enters a value into members with ascending keys. If there is one under its key, it is replaced. -/
def enterMember (key : String) (value : Json) : List (String × Json) → List (String × Json)
  | [] => [(key, value)]
  | member :: rest =>
      if key < member.1 then (key, value) :: member :: rest
      else if key = member.1 then (key, value) :: rest
      else member :: enterMember key value rest

/-- Members that are entered one after the other. -/
def enterMembers (entries : List (String × Json)) : List (String × Json) :=
  entries.foldl (fun members entry => enterMember entry.1 entry.2 members) []

theorem mem_enterMember {member : String × Json} (entered : member ∈ enterMember key value members) :
    member = (key, value) ∨ member ∈ members := by
  induction members with
  | nil => exact .inl (List.mem_singleton.mp entered)
  | cons first rest induction =>
      rw [enterMember] at entered
      split_ifs at entered with before same
      · exact List.mem_cons.mp entered
      · exact (List.mem_cons.mp entered).imp_right (List.mem_cons_of_mem _)
      · rcases List.mem_cons.mp entered with rfl | later
        · exact .inr List.mem_cons_self
        · exact (induction later).imp_right (List.mem_cons_of_mem _)

theorem pairwise_enterMember (key : String) (value : Json)
    (ascending : members.Pairwise fun first second => first.1 < second.1) :
    (enterMember key value members).Pairwise fun first second => first.1 < second.1 := by
  induction members with
  | nil => exact List.pairwise_singleton _ _
  | cons first rest induction =>
      rcases List.pairwise_cons.mp ascending with ⟨least, others⟩
      rw [enterMember]
      split_ifs with before same
      · refine List.pairwise_cons.mpr ⟨?_, ascending⟩
        intro member inside
        rcases List.mem_cons.mp inside with rfl | later
        · exact before
        · exact before.trans (least member later)
      · rw [same]
        exact List.pairwise_cons.mpr ⟨least, others⟩
      · refine List.pairwise_cons.mpr ⟨?_, induction others⟩
        intro member inside
        rcases mem_enterMember inside with rfl | later
        · exact lt_of_le_of_ne (not_lt.mp before) (Ne.symm same)
        · exact least member later

/-- Under a new key nothing is replaced. -/
theorem enterMember_perm (absent : key ∉ members.map (·.1)) :
    (enterMember key value members).Perm ((key, value) :: members) := by
  induction members with
  | nil => exact .refl _
  | cons first rest induction =>
      rw [List.map_cons, List.mem_cons, not_or] at absent
      rw [enterMember, if_neg absent.1]
      split_ifs with before
      · exact .refl _
      · exact ((induction absent.2).cons first).trans (.swap _ _ _)

theorem enterMembers_append_singleton (entries : List (String × Json)) (entry : String × Json) :
    enterMembers (entries ++ [entry]) = enterMember entry.1 entry.2 (enterMembers entries) :=
  List.foldl_append

theorem pairwise_enterMembers (entries : List (String × Json)) :
    (enterMembers entries).Pairwise fun first second => first.1 < second.1 := by
  induction entries using List.reverseRecOn with
  | nil => exact .nil
  | append_singleton entries entry induction =>
      rw [enterMembers_append_singleton]
      exact pairwise_enterMember _ _ induction

/-- Entries with different keys are all kept. -/
theorem enterMembers_perm (distinct : (entries.map (·.1)).Nodup) :
    (enterMembers entries).Perm entries := by
  induction entries using List.reverseRecOn with
  | nil => exact .refl _
  | append_singleton entries entry induction =>
      rw [List.map_append, List.nodup_append] at distinct
      rcases distinct with ⟨distinct, -, apart⟩
      have kept := induction distinct
      have absent : entry.1 ∉ (enterMembers entries).map (·.1) := by
        rw [(kept.map _).mem_iff]
        intro member
        exact apart _ member _ (List.mem_singleton_self _) rfl
      rw [enterMembers_append_singleton]
      exact ((enterMember_perm absent).trans (kept.cons entry)).trans
        (List.perm_append_singleton entry entries).symm

end Json

/-- Of entries with different keys, the one under a key is found. -/
theorem lookup_eq_some_iff_mem {Key Value : Type} [BEq Key] [LawfulBEq Key] {key : Key}
    {value : Value} {entries : List (Key × Value)} (distinct : (entries.map (·.1)).Nodup) :
    entries.lookup key = some value ↔ (key, value) ∈ entries := by
  rw [List.lookup_eq_some_iff]
  constructor
  · rintro ⟨before, after, rfl, -⟩
    exact List.mem_append_right _ List.mem_cons_self
  · intro member
    rcases List.append_of_mem member with ⟨before, after, rfl⟩
    refine ⟨before, after, rfl, fun other earlier => ?_⟩
    rw [List.map_append, List.nodup_append] at distinct
    have apart := distinct.2.2 _ (List.mem_map_of_mem earlier) _ List.mem_cons_self
    exact bne_iff_ne.mpr (Ne.symm apart)

/-! ## Texts of states -/

/-- The text under which a document has the time in a state. -/
def stateKey (state : StateId) : String :=
  toString state.toInt

theorem stateKey_injective : Function.Injective stateKey := by
  intro first second same
  have numbers := congrArg (fun text => Number.signed? text.toList) same
  simpa only [stateKey, Number.signed?_toString, Option.some.injEq] using numbers

theorem plain_stateKey (state : StateId) : ∀ char ∈ (stateKey state).toList, Delimited.Plain char :=
  Delimited.plain_of_integer (Number.integer_toString state.toInt)

/-- Plain texts and their bytes are in the same order. -/
theorem encode_lt_encode {first second : List Char} (plain : ∀ char ∈ first, Delimited.Plain char)
    (otherPlain : ∀ char ∈ second, Delimited.Plain char) (before : first < second) :
    Utf8.encode first < Utf8.encode second := by
  rw [Delimited.encode_of_plain plain, Delimited.encode_of_plain otherPlain]
  induction first generalizing second with
  | nil =>
      cases second with
      | nil => exact absurd before (List.lt_irrefl _)
      | cons char rest => exact List.nil_lt_cons _ _
  | cons char rest induction =>
      cases second with
      | nil => exact absurd before (List.not_lt_nil _)
      | cons other others =>
          rw [List.forall_mem_cons] at plain otherPlain
          rw [List.map_cons, List.map_cons, List.cons_lt_cons_iff]
          rcases List.cons_lt_cons_iff.mp before with less | ⟨rfl, later⟩
          · left
            rw [UInt8.lt_iff_toNat_lt, plain.1.toNat_byte, otherPlain.1.toNat_byte]
            exact less
          · exact .inr ⟨rfl, induction plain.2 otherPlain.2 later⟩

/-! ## Times by the texts of their states -/

namespace StateTime

variable {account : StateTime} {state : StateId}

/-- The entries of an account under the texts of their states. -/
def keyed (account : StateTime) : List (String × Json) :=
  account.entries.map fun (state, time) => (stateKey state, .float time)

theorem map_fst_keyed (account : StateTime) : account.keyed.map (·.1) = account.states.map stateKey := by
  rw [keyed, states, List.map_map, List.map_map]
  rfl

theorem nodup_keyed (distinct : account.states.Nodup) : (account.keyed.map (·.1)).Nodup := by
  rw [map_fst_keyed]
  exact distinct.map stateKey_injective

/-- Sorting the entries gives what entering one after the other gives. -/
theorem toJson_eq (distinct : account.states.Nodup) :
    account.toJson = .object (Json.enterMembers account.keyed) := by
  have ordered : ∀ first second : String, (!decide (second < first)) = true ↔ first ≤ second := by
    intro first second
    rw [Bool.not_eq_true', decide_eq_false_iff_not, not_lt]
  have permutation := List.mergeSort_perm account.keyed fun first second =>
    !decide (second.1 < first.1)
  have sorted : (account.keyed.mergeSort fun first second => !decide (second.1 < first.1)).Pairwise
      fun first second => !decide (second.1 < first.1) := by
    apply List.pairwise_mergeSort
    · intro first second third before after
      rw [ordered] at before after ⊢
      exact before.trans after
    · intro first second
      rw [Bool.or_eq_true, ordered, ordered]
      exact le_total _ _
  have apart := (permutation.map (·.1)).nodup_iff.mpr (nodup_keyed distinct)
  rw [List.nodup_iff_pairwise_ne, List.pairwise_map] at apart
  have ascending := (sorted.and apart).imp fun {first second} ⟨before, differs⟩ =>
    lt_of_le_of_ne ((ordered _ _).mp before) differs
  refine congrArg Json.object (List.Perm.eq_of_pairwise ?_ ascending
    (Json.pairwise_enterMembers account.keyed)
    (permutation.trans (Json.enterMembers_perm (nodup_keyed distinct)).symm))
  intro first second _ _ before after
  exact absurd before after.asymm

theorem mem_entries_iff (distinct : account.states.Nodup) {time : Float} :
    (state, time) ∈ account.entries ↔ state ∈ account.states ∧ account.inState state = time := by
  constructor
  · intro member
    have found := (lookup_eq_some_iff_mem distinct).mpr member
    exact ⟨List.mem_map_of_mem member, by rw [inState, found, Option.getD_some]⟩
  · rintro ⟨listed, rfl⟩
    rcases List.mem_map.mp listed with ⟨⟨state, time⟩, member, rfl⟩
    have found := (lookup_eq_some_iff_mem distinct).mpr member
    rwa [inState, found, Option.getD_some]

/-- A document has the times of all states, each under the text of its state. -/
theorem member?_toJson_eq_some_iff (distinct : account.states.Nodup) {key : String} {value : Json} :
    account.toJson.member? key = some value ↔
      ∃ state ∈ account.states, stateKey state = key ∧ .float (account.inState state) = value := by
  have permutation := Json.enterMembers_perm (nodup_keyed distinct)
  have entered := (permutation.map (·.1)).nodup_iff.mpr (nodup_keyed distinct)
  rw [toJson_eq distinct, Json.member?, lookup_eq_some_iff_mem entered, permutation.mem_iff, keyed,
    List.mem_map]
  constructor
  · rintro ⟨⟨state, time⟩, member, same⟩
    rcases (mem_entries_iff distinct).mp member with ⟨listed, rfl⟩
    exact ⟨state, listed, (Prod.mk.inj same).1, (Prod.mk.inj same).2⟩
  · rintro ⟨state, listed, rfl, rfl⟩
    exact ⟨(state, _), (mem_entries_iff distinct).mpr ⟨listed, rfl⟩, rfl⟩

theorem keys_toJson_perm (distinct : account.states.Nodup) :
    account.toJson.keys.Perm (account.states.map stateKey) := by
  rw [toJson_eq distinct, ← map_fst_keyed]
  exact (Json.enterMembers_perm (nodup_keyed distinct)).map _

/-- Keys are in the order of their bytes. -/
theorem pairwise_keys_toJson (distinct : account.states.Nodup) :
    account.toJson.keys.Pairwise fun first second =>
      Utf8.encode first.toList < Utf8.encode second.toList := by
  have plain : ∀ key ∈ account.toJson.keys, ∀ char ∈ key.toList, Delimited.Plain char := by
    intro key member
    rw [(keys_toJson_perm distinct).mem_iff, List.mem_map] at member
    rcases member with ⟨state, -, rfl⟩
    exact plain_stateKey state
  have ascending : account.toJson.keys.Pairwise (· < ·) := by
    rw [toJson_eq distinct]
    exact List.pairwise_map.mpr (Json.pairwise_enterMembers account.keyed)
  refine ascending.imp_of_mem fun first second before => ?_
  exact encode_lt_encode (plain _ first) (plain _ second) (String.lt_iff_toList_lt.mp before)

end StateTime

theorem Run.member?_toJson (run : Run) :
    (run.toJson true).member? "state_durations_ms" = some run.stateTime.toJson := by
  rfl

/-- The document of a run with states has the time in each of them, and nothing else, under the text of
the state's number. The times can be entered one after the other: none takes the place of another one.
Keys are in ascending order of their bytes. -/
theorem stateTimes_kept {config : Config} {name : String} {source : Path} {recorded : List Frame}
    {run : Run} (analysed : Run.ofFrames config name source recorded = .ok run) :
    let states := run.stateTime.states
    ∃ times, (run.toJson true).member? "state_durations_ms" = some times ∧
      times = .object (Json.enterMembers run.stateTime.keyed) ∧
      (states.Nodup ∧ ∀ state, state ∈ states ↔ ∃ frame ∈ run.frames, frame.state = state) ∧
      times.keys.length = states.length ∧
      (∀ state ∈ states, times.member? (toString state.toInt) =
        some (.float (run.stateTime.inState state))) ∧
      (∀ key, (∀ state ∈ states, toString state.toInt ≠ key) → times.member? key = none) ∧
      times.keys.Pairwise fun first second =>
        Utf8.encode first.toList < Utf8.encode second.toList := by
  intro states
  have observed : run.stateTime.states = statesOf run.frames := by
    rcases Run.ofFrames_eq_ok_iff.mp analysed with ⟨stats, -, rfl⟩
    exact StateTime.states_ofFrames _
  have distinct : run.stateTime.states.Nodup := by
    rw [observed]
    exact nodup_statesOf run.frames
  refine ⟨_, run.member?_toJson, StateTime.toJson_eq distinct, ⟨distinct, ?_⟩, ?_, ?_, ?_,
    StateTime.pairwise_keys_toJson distinct⟩
  · intro state
    change state ∈ run.stateTime.states ↔ _
    rw [observed, mem_statesOf]
  · rw [(StateTime.keys_toJson_perm distinct).length_eq, List.length_map]
  · intro state listed
    exact (StateTime.member?_toJson_eq_some_iff distinct).mpr ⟨state, listed, rfl, rfl⟩
  · intro key unused
    rw [Option.eq_none_iff_forall_ne_some]
    intro value found
    rcases (StateTime.member?_toJson_eq_some_iff distinct).mp found with ⟨state, listed, same, -⟩
    exact unused state listed same

/-- Four states, one of them negative and one without a tag. As texts, `10` comes before `9`. -/
private def roaming : List Frame :=
  [⟨3000000, some 10⟩, ⟨1000000, some (-5)⟩, ⟨2000000, none⟩, ⟨4000000, some 9⟩, ⟨5000000, some 10⟩]

theorem stateTimes_kept_of_roaming :
    ∃ run times, Run.ofFrames { withState := true } "r/a.log" ⟨"/r/a.log"⟩ roaming = .ok run ∧
      (run.toJson true).member? "state_durations_ms" = some times ∧ times.keys.length = 4 ∧
      times.member? "-5" = some (.float 1) ∧ times.member? "10" = some (.float 8) ∧
      times.member? "1" = none ∧ times.keys = ["-5", "0", "10", "9"] := by
  have exists_made :
      ∃ run, Run.ofFrames { withState := true } "r/a.log" ⟨"/r/a.log"⟩ roaming = .ok run :=
    Run.ofFrames_succeeds_iff.mpr (by decide +kernel)
  rcases exists_made with ⟨run, analysed⟩
  rcases stateTimes_kept analysed with ⟨times, document, entered, -, length, kept, unused, -⟩
  have account : run.stateTime = StateTime.ofFrames roaming := by
    rcases Run.ofFrames_eq_ok_iff.mp analysed with ⟨stats, -, rfl⟩
    rfl
  have states : run.stateTime.states = [-5, 0, 9, 10] := by
    rw [account]
    decide +kernel
  rw [states] at length kept unused
  refine ⟨run, times, analysed, document, length, ?_, ?_, ?_, ?_⟩
  · have time : run.stateTime.inState (-5) = 1 := by
      rw [account]
      decide +kernel
    have key : toString (-5 : StateId).toInt = "-5" := by decide +kernel
    rw [← key, kept (-5) (by decide), time]
  · have time : run.stateTime.inState 10 = 8 := by
      rw [account]
      decide +kernel
    have key : toString (10 : StateId).toInt = "10" := by decide +kernel
    rw [← key, kept 10 (by decide), time]
  · have others : ([-5, 0, 9, 10] : List StateId).all (toString ·.toInt ≠ "1") = true := by
      decide +kernel
    exact unused "1" fun state member => of_decide_eq_true (List.all_eq_true.mp others state member)
  · rw [entered, account]
    decide +kernel

end FrameTiming

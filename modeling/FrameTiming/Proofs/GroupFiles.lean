import FrameTiming.Program.Analyze
import FrameTiming.Proofs.ProvidedLog

/-! # Files of groups

The files that are written for a group of logs are called after it: tables and pictures with a word
behind its name, the logs of its runs with a number. So groups keep out of each other's way unless one
is called like the other, possibly with a number behind.
-/

namespace FrameTiming

open Host (Location)
open Host.FileTree (locationOf)

/-! ## Names that go on -/

/-- Whether a name goes on with a number where another one ends. -/
def continues (start name : List Char) : Bool :=
  match name.drop start.length with
  | '_' :: digit :: _ => start.isPrefixOf name && digit.isDigit
  | _ => false

theorem continues_append (start : List Char) {digit : Char} (isDigit : digit.isDigit = true)
    (rest : List Char) : continues start (start ++ '_' :: digit :: rest) = true := by
  rw [continues, List.drop_left]
  simp [isDigit]

/-- Names of which neither is the other one, nor goes on with a number where the other one ends. -/
def apartNames (first second : List Char) : Bool :=
  first ≠ second && !continues first second && !continues second first

example : apartNames "base".toList "base2".toList = true ∧
    apartNames "base".toList "base_2".toList = false := by decide

def Numbered (characters : List Char) : Prop :=
  ∃ digit rest, characters = digit :: rest ∧ digit.isDigit = true

theorem ne_of_apartNames {first second body other : List Char}
    (apart : apartNames first second = true) (numbered : Numbered body)
    (kind : Numbered other ∨ '_' ∉ other) : first ++ '_' :: body ≠ second ++ '_' :: other := by
  rw [apartNames, Bool.and_eq_true, Bool.and_eq_true, decide_eq_true_eq, Bool.not_eq_true',
    Bool.not_eq_true'] at apart
  rcases apart with ⟨⟨differ, forwards⟩, backwards⟩
  -- If one name is longer, what it has beyond the other is where the number of the other stands.
  have longer : ∀ (start : List Char) {name rest body : List Char}, Numbered body →
      '_' :: body = name ++ '_' :: rest →
      name = [] ∨ continues start (start ++ name) = true := by
    rintro start name rest _ ⟨digit, more, rfl, isDigit⟩ same
    rcases name with _ | ⟨mark, _ | ⟨next, others⟩⟩
    · exact .inl rfl
    · rcases List.cons.inj (List.cons.inj same).2 with ⟨rfl, -⟩
      exact absurd isDigit (by decide)
    · rcases List.cons.inj same with ⟨rfl, rest⟩
      rcases List.cons.inj rest with ⟨rfl, -⟩
      exact .inr (continues_append start isDigit others)
  intro same
  rcases List.append_eq_append_iff.mp same with ⟨name, rfl, behind⟩ | ⟨name, rfl, behind⟩
  · rcases longer first numbered behind with rfl | goesOn
    · exact differ (List.append_nil first).symm
    · rw [goesOn] at forwards
      cases forwards
  · rcases kind with alsoNumbered | plain
    · rcases longer second alsoNumbered behind with rfl | goesOn
      · exact differ (List.append_nil second)
      · rw [goesOn] at backwards
        cases backwards
    · rcases name with _ | ⟨mark, others⟩
      · exact differ (List.append_nil second)
      · rw [(List.cons.inj behind).2] at plain
        exact plain (by simp)

/-! ## Files -/

/-- Groups whose files cannot be taken for each other's. Only what is behind the last slash of a name
is part of file names. -/
def Apart (first second : String) : Prop :=
  apartNames (Path.lastSegment ⟨first⟩).toList (Path.lastSegment ⟨second⟩).toList = true

instance (first second : String) : Decidable (Apart first second) :=
  inferInstanceAs (Decidable (_ = true))

theorem exists_exportTail (run : Run) (index : ℕ) :
    ∃ body, (run.exportTail index).toList = '_' :: body ∧ Numbered body := by
  refine ⟨_, run.exportTail_toList index, ?_⟩
  rcases List.exists_cons_of_ne_nil (Number.toString_toList_ne_nil index) with ⟨digit, rest, digits⟩
  refine ⟨digit, rest ++ '_' :: run.joinedName, by rw [digits, List.cons_append], ?_⟩
  apply Number.isDigit_of_mem_toString
  rw [digits]
  exact List.mem_cons_self

variable {working : Location} {directory otherDirectory : Path} {group other : String}

/-- The log of a run is in nobody else's place. -/
theorem locationOf_exportPath_ne {rest : String} {body : List Char}
    (absent : '/' ∉ rest.toList) (behind : rest.toList = '_' :: body)
    (kind : Numbered body ∨ '_' ∉ body) (apart : Apart group other) (run : Run) (index : ℕ) :
    locationOf working (run.exportPath directory group index) ≠
      locationOf working (otherDirectory.join ⟨other ++ rest⟩) := by
  have marked : '_' ∈ rest.toList := by
    rw [behind]
    exact List.mem_cons_self
  rcases exists_exportTail run index with ⟨tail, characters, numbered⟩
  intro same
  rw [Run.exportPath, locationOf_export, locationOf_append working otherDirectory other absent marked]
    at same
  have names := congrArg String.toList (List.singleton_inj.mp (List.append_inj' same rfl).2)
  rw [String.toList_append, String.toList_append, characters, behind] at names
  exact ne_of_apartNames apart numbered kind names

/-- The log of a run is not in the place of a table or a picture of its own group. -/
theorem locationOf_exportPath_ne_own {rest : String} {body : List Char}
    (absent : '/' ∉ rest.toList) (behind : rest.toList = '_' :: body) (plain : '_' ∉ body)
    (run : Run) (index : ℕ) :
    locationOf working (run.exportPath directory group index) ≠
      locationOf working (otherDirectory.join ⟨group ++ rest⟩) := by
  have marked : '_' ∈ rest.toList := by
    rw [behind]
    exact List.mem_cons_self
  intro same
  rw [Run.exportPath, locationOf_export, locationOf_append working otherDirectory group absent marked]
    at same
  have names := List.singleton_inj.mp (List.append_inj' same rfl).2
  rw [String.append_right_inj] at names
  have characters := congrArg String.toList names
  rw [run.exportTail_toList, behind] at characters
  rw [← (List.cons.inj characters).2] at plain
  exact plain (by simp)

open Program (pictureDirectory)
open CommandLine (AnalyzeOptions)

/-- The places of the files that an analysis may write for a group. -/
inductive GroupFile (options : AnalyzeOptions) (workDirectory : Path) (working : Location)
    (group : String) : Location → Prop
  | log (run : Run) (index : ℕ) :
      GroupFile options workDirectory working group
        (locationOf working (run.exportPath workDirectory group index))
  | table :
      GroupFile options workDirectory working group
        (locationOf working (options.tableDirectory.join ⟨group ++ "_fps.csv"⟩))
  | picture :
      GroupFile options workDirectory working group
        (locationOf working ((pictureDirectory options.output).join ⟨group ++ "_frametimes.png"⟩))

variable {options : AnalyzeOptions} {workDirectory : Path}

/-- Files of a group are called after it. -/
theorem exists_name_of_groupFile {location : Location}
    (file : GroupFile options workDirectory working group location) :
    ∃ place rest, location = place ++ [Path.lastSegment ⟨group⟩ ++ ("_" ++ rest)] := by
  cases file with
  | log run index =>
      rw [Run.exportPath, locationOf_export, Run.exportTail, String.append_assoc, String.append_assoc]
      exact ⟨_, _, rfl⟩
  | table =>
      rw [locationOf_append working options.tableDirectory group (by decide) (by decide)]
      exact ⟨_, "fps.csv", rfl⟩
  | picture =>
      rw [locationOf_append working _ group (by decide) (by decide)]
      exact ⟨_, "frametimes.png", rfl⟩

theorem not_groupFile_of_plain {place : Location} {name : String} (plain : '_' ∉ name.toList) :
    ¬GroupFile options workDirectory working group (place ++ [name]) := by
  intro file
  rcases exists_name_of_groupFile file with ⟨_, rest, same⟩
  rw [List.singleton_inj.mp (List.append_inj' same rfl).2] at plain
  exact plain (by simp)

/-- No file of another group is in the place of the log of a run. -/
theorem not_groupFile_exportPath (apart : Apart group other) (run : Run) (index : ℕ) :
    ¬GroupFile options workDirectory working other
      (locationOf working (run.exportPath workDirectory group index)) := by
  intro file
  generalize place : locationOf working (run.exportPath workDirectory group index) = location at file
  cases file with
  | log otherRun otherIndex =>
      rcases exists_exportTail otherRun otherIndex with ⟨body, characters, numbered⟩
      rw [Run.exportPath, Run.exportPath, otherRun.exportName_eq, ← Run.exportPath] at place
      exact locationOf_exportPath_ne (otherRun.noSlash_exportTail otherIndex) characters
        (.inl numbered) apart run index place
  | table =>
      exact locationOf_exportPath_ne (by decide) rfl (.inr (by decide)) apart run index place
  | picture =>
      exact locationOf_exportPath_ne (by decide) rfl (.inr (by decide)) apart run index place

end FrameTiming

import FrameTiming.Host.FileTree
import FrameTiming.Proofs.Except
import FrameTiming.Proofs.Path
import Mathlib.Data.List.Basic
import Mathlib.Data.List.Induction

/-! # Locations of paths

Where a path leads depends on the tree only in whether it leads anywhere. So a path keeps its location
as long as directories stay, and a file is found again under every path to its location.
-/

namespace FrameTiming.Host.FileTree

/-! ## Following segments -/

/-- The location behind a segment. -/
def enter (location : Location) (segment : String) : Location :=
  if segment = "" ∨ segment = "." then location
  else if segment = ".." then location.dropLast
  else location ++ [segment]

theorem enter_name (location : Location) {name : String} (filled : name ≠ "")
    (single : name ≠ ".") (double : name ≠ "..") : enter location name = location ++ [name] := by
  rw [enter, if_neg (not_or.mpr ⟨filled, single⟩), if_neg double]

/-- The location of a path, if it has one. -/
def locationOf (working : Location) (path : Path) : Location :=
  path.segments.foldl enter (origin working path)

variable {tree before after : FileTree} {working location place : Location} {path : Path}

theorem walk_cons_eq_ok_iff {segment : String} {rest : List String} :
    tree.walk location (segment :: rest) = .ok place ↔
      tree.node? location = some .directory ∧ segment.utf8ByteSize ≤ nameLimit ∧
        tree.walk (enter location segment) rest = .ok place := by
  rw [walk, enter]
  rcases tree.node? location with _ | ⟨_ | ⟨content, executable⟩⟩
  · simp
  · by_cases stays : segment = "" ∨ segment = "."
    · have short : segment.utf8ByteSize ≤ nameLimit := by
        rcases stays with rfl | rfl <;> decide
      simp [stays, short]
    · by_cases up : segment = ".."
      · have short : "..".utf8ByteSize ≤ nameLimit := by decide
        simp [up, short]
      · by_cases short : segment.utf8ByteSize ≤ nameLimit
        · simp [stays, up, short, Nat.not_lt.mpr short]
        · simp [stays, up, short, Nat.not_le.mp short]
  · simp

theorem walk_append_eq_ok_iff {first rest : List String} :
    tree.walk location (first ++ rest) = .ok place ↔
      ∃ middle, tree.walk location first = .ok middle ∧ tree.walk middle rest = .ok place := by
  induction first generalizing location with
  | nil => simp [walk]
  | cons segment first induction =>
      rw [List.cons_append, walk_cons_eq_ok_iff, induction]
      simp only [walk_cons_eq_ok_iff]
      constructor
      · rintro ⟨directory, short, middle, toMiddle, fromMiddle⟩
        exact ⟨middle, ⟨directory, short, toMiddle⟩, fromMiddle⟩
      · rintro ⟨middle, ⟨directory, short, toMiddle⟩, fromMiddle⟩
        exact ⟨directory, short, middle, toMiddle, fromMiddle⟩

theorem eq_foldl_of_walk {segments : List String}
    (walked : tree.walk location segments = .ok place) : place = segments.foldl enter location := by
  induction segments generalizing location with
  | nil => exact (Except.ok.inj walked).symm
  | cons segment rest induction => exact induction (walk_cons_eq_ok_iff.mp walked).2.2

theorem locate_eq_ok_iff :
    tree.locate working path = .ok location ↔
      ∃ segments, usableSegments path = .ok segments ∧
        tree.walk (origin working path) segments = .ok location :=
  bind_eq_ok_iff

theorem eq_segments_of_usable {segments : List String}
    (usable : usableSegments path = .ok segments) : segments = path.segments := by
  rw [usableSegments] at usable
  split_ifs at usable
  exact (Except.ok.inj usable).symm

theorem eq_locationOf_of_locate (located : tree.locate working path = .ok location) :
    location = locationOf working path := by
  rcases locate_eq_ok_iff.mp located with ⟨segments, usable, walked⟩
  rw [locationOf, ← eq_segments_of_usable usable]
  exact eq_foldl_of_walk walked

/-! ## Names -/

/-- What can be the name of an entry. -/
structure IsName (name : String) : Prop where
  filled : name ≠ ""
  single : name ≠ "."
  double : name ≠ ".."
  short : name.utf8ByteSize ≤ nameLimit
  noSlash : '/' ∉ name.toList
  noNul : '\x00' ∉ name.toList

instance (name : String) : Decidable (IsName name) :=
  decidable_of_iff (name ≠ "" ∧ name ≠ "." ∧ name ≠ ".." ∧ name.utf8ByteSize ≤ nameLimit ∧
      '/' ∉ name.toList ∧ '\x00' ∉ name.toList)
    ⟨fun ⟨filled, single, double, short, noSlash, noNul⟩ =>
        ⟨filled, single, double, short, noSlash, noNul⟩,
      fun isName => ⟨isName.filled, isName.single, isName.double, isName.short, isName.noSlash,
        isName.noNul⟩⟩

theorem IsName.enter_eq {name : String} (isName : IsName name) (location : Location) :
    enter location name = location ++ [name] :=
  enter_name location isName.filled isName.single isName.double

/-- Segments of a usable path that lead down are names. -/
theorem isName_of_usable {segments : List String} (usable : usableSegments path = .ok segments)
    {name : String} (listed : name ∈ segments) (filled : name ≠ "") (single : name ≠ ".")
    (double : name ≠ "..") (short : name.utf8ByteSize ≤ nameLimit) : IsName name := by
  have noNul : '\x00' ∉ path.text.toList := by
    intro nul
    rw [usableSegments, if_pos nul] at usable
    cases usable
  rw [eq_segments_of_usable usable] at listed
  have characters := Path.mem_of_mem_segments listed
  exact ⟨filled, single, double, short, fun slash => (characters _ slash).2 rfl,
    fun nul => noNul (characters _ nul).1⟩

/-! ## Later trees -/

/-- Directories stay directories. -/
def KeepsDirectories (before after : FileTree) : Prop :=
  ∀ location, before.node? location = some .directory → after.node? location = some .directory

theorem KeepsDirectories.refl (tree : FileTree) : KeepsDirectories tree tree :=
  fun _ directory => directory

theorem KeepsDirectories.trans {middle : FileTree} (first : KeepsDirectories before middle)
    (second : KeepsDirectories middle after) : KeepsDirectories before after :=
  fun location directory => second location (first location directory)

theorem KeepsDirectories.walk (keeps : KeepsDirectories before after) {segments : List String}
    (walked : before.walk location segments = .ok place) :
    after.walk location segments = .ok place := by
  induction segments generalizing location with
  | nil => exact walked
  | cons segment rest induction =>
      rw [walk_cons_eq_ok_iff] at walked ⊢
      exact ⟨keeps _ walked.1, walked.2.1, induction walked.2.2⟩

theorem KeepsDirectories.locate (keeps : KeepsDirectories before after)
    (located : before.locate working path = .ok location) :
    after.locate working path = .ok location := by
  rcases locate_eq_ok_iff.mp located with ⟨segments, usable, walked⟩
  exact locate_eq_ok_iff.mpr ⟨segments, usable, keeps.walk walked⟩

theorem find_eq_ok_iff {node : Node} :
    tree.find working path = .ok (location, node) ↔
      tree.locate working path = .ok location ∧ tree.node? location = some node := by
  rw [find, bind_eq_ok_iff]
  constructor
  · rintro ⟨found, located, present⟩
    split at present
    · rename_i there
      cases present
      exact ⟨located, there⟩
    · cases present
  · rintro ⟨located, present⟩
    exact ⟨location, located, by simp only [present]⟩

/-- A file with this content is at the location. -/
def Holds (tree : FileTree) (location : Location) (content : List UInt8) : Prop :=
  ∃ executable, tree.node? location = some (.file content executable)

theorem openFile_eq_bytes_iff {content : List UInt8} :
    tree.openFile working path = .ok (.bytes content) ↔
      tree.locate working path = .ok (locationOf working path) ∧
        tree.Holds (locationOf working path) content := by
  rw [openFile, find]
  cases located : tree.locate working path with
  | error error => simp [bind, Except.bind]
  | ok location =>
      rw [← eq_locationOf_of_locate located]
      rcases present : tree.node? location with _ | ⟨_ | ⟨stored, executable⟩⟩ <;>
        simp [bind, Except.bind, present, Holds]

/-- The canonical path of a file that can be read depends on its location only. -/
theorem canonicalPath_of_openFile {content : List UInt8}
    (opened : tree.openFile working path = .ok (.bytes content)) :
    tree.canonicalPath working path =
      if pathLimit < (absolutePath (locationOf working path)).text.utf8ByteSize then
        .error .nameTooLong
      else .ok (absolutePath (locationOf working path)) := by
  rcases openFile_eq_bytes_iff.mp opened with ⟨located, executable, present⟩
  simp only [canonicalPath, find, located, present, bind, Except.bind]

/-! ## Changes -/

/-- Nothing that is there changes. -/
def Extends (before after : FileTree) : Prop :=
  ∀ location node, before.node? location = some node → after.node? location = some node

theorem Extends.refl (tree : FileTree) : Extends tree tree :=
  fun _ _ present => present

theorem Extends.trans {middle : FileTree} (first : Extends before middle)
    (second : Extends middle after) : Extends before after :=
  fun location node present => second location node (first location node present)

theorem Extends.keepsDirectories (grows : Extends before after) : KeepsDirectories before after :=
  fun location directory => grows location _ directory

theorem Extends.holds (grows : Extends before after) {content : List UInt8}
    (held : before.Holds location content) : after.Holds location content := by
  rcases held with ⟨executable, present⟩
  exact ⟨executable, grows location _ present⟩

theorem extends_put {node : Node} (absent : tree.node? location = none) :
    Extends tree (tree.put location node) := by
  intro other present found
  have differs : other ≠ location := by
    rintro rfl
    rw [absent] at found
    cases found
  rw [node?_put_of_ne tree differs]
  exact found

/-- A directory that is created is there already, or its location holds nothing so far. -/
theorem makeDirectory_spec (made : before.makeDirectory working path = .ok after) :
    ∃ segments location, usableSegments path = .ok segments ∧
      before.walk (origin working path) (withoutSlashes segments) = .ok location ∧
      (after = before ∨
        before.node? location = none ∧ after = before.put location .directory) := by
  simp only [makeDirectory, bind_eq_ok_iff] at made
  rcases made with ⟨segments, usable, location, walked, made⟩
  refine ⟨segments, location, usable, walked, ?_⟩
  split at made
  · cases made
    exact .inl rfl
  · cases made
  · rename_i absent
    cases made
    exact .inr ⟨absent, rfl⟩

/-- The first of nested directories is created in the tree or behind the others. -/
theorem makeNested_cons_spec {above : List Path}
    (made : before.makeNested working (path :: above) = .ok after) :
    before.makeDirectory working path = .ok after ∨
      ∃ middle, before.makeNested working above = .ok middle ∧
        middle.makeDirectory working path = .ok after := by
  rw [makeNested] at made
  split at made
  · exact .inr (bind_eq_ok_iff.mp made)
  · exact .inl made

theorem extends_of_makeDirectory (made : before.makeDirectory working path = .ok after) :
    Extends before after := by
  rcases makeDirectory_spec made with ⟨segments, location, -, -, rfl | ⟨absent, rfl⟩⟩
  · exact .refl _
  · exact extends_put absent

theorem extends_of_makeNested {paths : List Path}
    (made : before.makeNested working paths = .ok after) : Extends before after := by
  induction paths generalizing after with
  | nil =>
      cases made
      exact .refl before
  | cons path above induction =>
      rcases makeNested_cons_spec made with direct | ⟨middle, nested, rest⟩
      · exact extends_of_makeDirectory direct
      · exact (induction nested).trans (extends_of_makeDirectory rest)

/-- Creating directories leaves everything that is there as it is. -/
theorem extends_of_makeDirectories (made : before.makeDirectories working path = .ok after) :
    Extends before after :=
  extends_of_makeNested made

theorem withoutSlashes_concat (names : List String) {name : String} (filled : name ≠ "") :
    withoutSlashes (names ++ [name]) = names ++ [name] := by
  simp [withoutSlashes, filled]

/-- A file is written at the location of its path, unless a directory is there. -/
theorem writeFile_spec {content : List UInt8}
    (written : before.writeFile working path content = .ok after) :
    ∃ directory name executable, locationOf working path = directory ++ [name] ∧ IsName name ∧
      before.locate working path = .ok (locationOf working path) ∧
      before.node? directory = some .directory ∧
      before.node? (locationOf working path) ≠ some .directory ∧
      after = before.put (locationOf working path) (.file content executable) := by
  simp only [writeFile, bind_eq_ok_iff] at written
  rcases written with ⟨segments, usable, directory, walked, written⟩
  split at written
  · cases written
  · cases written
  · cases written
  · cases written
  · cases written
  · cases written
  · rename_i name filled single double present last
    rcases List.getLast?_eq_some_iff.mp last with ⟨names, rfl⟩
    rw [withoutSlashes_concat names filled, List.dropLast_concat] at walked
    rcases bind_eq_ok_iff.mp written with ⟨location, entered, written⟩
    have there : before.walk (origin working path) (names ++ [name]) = .ok location :=
      walk_append_eq_ok_iff.mpr ⟨directory, walked, entered⟩
    have located := locate_eq_ok_iff.mpr ⟨_, usable, there⟩
    have isName := isName_of_usable usable (List.mem_append_right _ (by simp)) filled
      single double (walk_cons_eq_ok_iff.mp entered).2.1
    have below : location = directory ++ [name] :=
      (eq_foldl_of_walk entered).trans (isName.enter_eq directory)
    have unique := eq_locationOf_of_locate located
    rw [← unique]
    rcases found : before.node? location with _ | ⟨_ | ⟨stored, executable⟩⟩
    · simp only [found, Except.ok.injEq] at written
      exact ⟨directory, name, false, below, isName, located, present, by simp, written.symm⟩
    · simp only [found, reduceCtorEq] at written
    · simp only [found, Except.ok.injEq] at written
      exact ⟨directory, name, executable, below, isName, located, present, by simp,
        written.symm⟩

section Written

variable {content : List UInt8} (written : before.writeFile working path content = .ok after)
include written

theorem node?_of_writeFile_of_ne {other : Location} (differs : other ≠ locationOf working path) :
    after.node? other = before.node? other := by
  rcases writeFile_spec written with ⟨-, -, executable, -, -, -, -, -, rfl⟩
  exact node?_put_of_ne before differs _

theorem keepsDirectories_of_writeFile : KeepsDirectories before after := by
  rcases writeFile_spec written with ⟨-, -, executable, -, -, -, -, noDirectory, -⟩
  intro location directory
  rw [node?_of_writeFile_of_ne written]
  · exact directory
  · rintro rfl
    exact noDirectory directory

/-- What was written is read under the same path. -/
theorem openFile_of_writeFile : after.openFile working path = .ok (.bytes content) := by
  rw [openFile_eq_bytes_iff]
  have keeps := keepsDirectories_of_writeFile written
  rcases writeFile_spec written with ⟨directory, name, executable, below, -, located, -, -, rfl⟩
  refine ⟨keeps.locate located, executable, node?_put_self before ?_ _⟩
  rw [below]
  exact List.concat_ne_nil _ _

end Written

/-! ## Sound trees -/

/-- Every entry has a name and lies in a directory. -/
structure Sound (tree : FileTree) : Prop where
  parent : ∀ location name, tree.node? (location ++ [name]) ≠ none →
    tree.node? location = some .directory
  isName : ∀ location name, tree.node? (location ++ [name]) ≠ none → IsName name

theorem mem_absolutePath {char : Char} (member : char ∈ (absolutePath location).text.toList) :
    char = '/' ∨ ∃ name ∈ location, char ∈ name.toList := by
  have joined : ∀ names : List String, char ∈ ("/".intercalate names).toList →
      char = '/' ∨ ∃ name ∈ names, char ∈ name.toList := by
    intro names inside
    induction names with
    | nil => simp at inside
    | cons name names induction =>
        cases names with
        | nil => exact .inr ⟨name, by simp, by simpa using inside⟩
        | cons other more =>
            rw [String.intercalate_cons_cons, String.toList_append, String.toList_append,
              List.mem_append, List.mem_append] at inside
            rcases inside with (inName | slash) | later
            · exact .inr ⟨name, by simp, inName⟩
            · exact .inl (by simpa using slash)
            · rcases induction later with slash | ⟨next, listed, inNext⟩
              · exact .inl slash
              · exact .inr ⟨next, List.mem_cons_of_mem _ listed, inNext⟩
  rw [absolutePath, String.toList_append, List.mem_append] at member
  rcases member with slash | inside
  · exact .inl (by simpa using slash)
  · exact joined location inside

theorem isAbsolute_absolutePath (location : Location) :
    (absolutePath location).isAbsolute = true := by
  simp [Path.isAbsolute, absolutePath]

namespace Sound

variable (sound : tree.Sound)
include sound

theorem names (present : tree.node? location ≠ none) : ∀ name ∈ location, IsName name := by
  induction location using List.reverseRecOn with
  | nil => exact fun _ none => absurd none List.not_mem_nil
  | append_singleton location name induction =>
      have above := induction (by rw [sound.parent location name present]; simp)
      rw [List.forall_mem_append, List.forall_mem_singleton]
      exact ⟨above, sound.isName location name present⟩

theorem walk_root (present : tree.node? location ≠ none) :
    tree.walk [] location = .ok location := by
  induction location using List.reverseRecOn with
  | nil => rfl
  | append_singleton location name induction =>
      have directory := sound.parent location name present
      have isName := sound.isName location name present
      have above := induction (by rw [directory]; simp)
      refine walk_append_eq_ok_iff.mpr ⟨location, above, ?_⟩
      rw [walk_cons_eq_ok_iff, isName.enter_eq]
      exact ⟨directory, isName.short, rfl⟩

/-- The absolute path of something leads to it, wherever one starts. -/
theorem locate_absolutePath (present : tree.node? location ≠ none)
    (short : (absolutePath location).text.utf8ByteSize ≤ pathLimit) (working : Location) :
    tree.locate working (absolutePath location) = .ok location := by
  have names := sound.names present
  have noNul : '\x00' ∉ (absolutePath location).text.toList := by
    intro nul
    rcases mem_absolutePath nul with slash | ⟨name, listed, inName⟩
    · exact absurd slash (by decide)
    · exact (names name listed).noNul inName
  have filled : (absolutePath location).text ≠ "" := by simp [absolutePath]
  have usable : usableSegments (absolutePath location) = .ok (absolutePath location).segments := by
    rw [usableSegments, if_neg noNul, if_neg filled, if_neg (Nat.not_lt.mpr short)]
  have start : origin working (absolutePath location) = [] := by
    rw [origin, isAbsolute_absolutePath, if_pos rfl]
  rw [locate_eq_ok_iff]
  refine ⟨_, usable, ?_⟩
  rw [start]
  cases location with
  | nil =>
      have segments : (absolutePath []).segments = [""] := by decide +kernel
      rw [segments, walk_cons_eq_ok_iff]
      exact ⟨rfl, Nat.zero_le _, rfl⟩
  | cons name rest =>
      have segments : (absolutePath (name :: rest)).segments = name :: rest :=
        Path.segments_absolute (List.cons_ne_nil _ _)
          fun other listed => (names other listed).noSlash
      rw [segments]
      exact sound.walk_root present

/-- The canonical path of something leads to the same location. -/
theorem locate_of_canonicalPath {canonical : Path}
    (found : tree.canonicalPath working path = .ok canonical) (other : Location) :
    tree.locate other canonical = .ok (locationOf working path) := by
  simp only [canonicalPath, find, bind_eq_ok_iff] at found
  rcases found with ⟨⟨location, node⟩, ⟨place, located, there⟩, found⟩
  split at there
  · rename_i present
    cases there
    rw [← eq_locationOf_of_locate located]
    split_ifs at found with long
    cases found
    exact sound.locate_absolutePath (by rw [present]; simp) (Nat.not_lt.mp long) other
  · cases there

/-- A new entry in a directory keeps the tree sound, unless it takes the place of a directory. -/
theorem put {directory : Location} {name : String} {node : Node}
    (present : tree.node? directory = some .directory) (isName : IsName name)
    (allowed : tree.node? (directory ++ [name]) ≠ some .directory ∨ node = .directory) :
    (tree.put (directory ++ [name]) node).Sound := by
  have entry := node?_put_self tree (List.concat_ne_nil name directory) node
  have keeps : ∀ location, tree.node? location = some .directory →
      (tree.put (directory ++ [name]) node).node? location = some .directory := by
    intro location found
    by_cases same : location = directory ++ [name]
    · rw [same] at found ⊢
      rw [entry, allowed.resolve_left (not_not_intro found)]
    · rwa [node?_put_of_ne tree same]
  constructor
  case parent =>
    intro location other found
    by_cases same : location ++ [other] = directory ++ [name]
    · rw [(List.append_inj' same rfl).1]
      exact keeps directory present
    · rw [node?_put_of_ne tree same] at found
      exact keeps location (sound.parent location other found)
  case isName =>
    intro location other found
    by_cases same : location ++ [other] = directory ++ [name]
    · rw [List.singleton_inj.mp (List.append_inj' same rfl).2]
      exact isName
    · rw [node?_put_of_ne tree same] at found
      exact sound.isName location other found

end Sound

theorem sound_empty : empty.Sound := by
  have bare : ∀ (location : Location) (name : String), empty.node? (location ++ [name]) = none := by
    intro location name
    simp [empty, node?]
  exact ⟨fun location name found => absurd (bare location name) found,
    fun location name found => absurd (bare location name) found⟩

/-- Where a path ends without finding anything, a name follows a directory. -/
theorem Sound.absent_of_walk (sound : tree.Sound) {segments : List String}
    (walked : tree.walk location segments = .ok place) (start : tree.node? location ≠ none)
    (absent : tree.node? place = none) :
    ∃ directory name, place = directory ++ [name] ∧ tree.node? directory = some .directory ∧
      name ∈ segments ∧ name ≠ "" ∧ name ≠ "." ∧ name ≠ ".." ∧ name.utf8ByteSize ≤ nameLimit := by
  rcases List.eq_nil_or_concat' segments with rfl | ⟨before, segment, rfl⟩
  · cases walked
    exact absurd absent start
  · rcases walk_append_eq_ok_iff.mp walked with ⟨middle, -, entered⟩
    rcases walk_cons_eq_ok_iff.mp entered with ⟨directory, short, arrived⟩
    cases arrived
    by_cases stays : segment = "" ∨ segment = "."
    · rw [enter, if_pos stays, directory] at absent
      cases absent
    · by_cases up : segment = ".."
      · rw [enter, if_neg stays, if_pos up] at absent
        rcases List.eq_nil_or_concat' middle with rfl | ⟨above, name, rfl⟩
        · cases absent
        · rw [List.dropLast_concat, sound.parent above name (by rw [directory]; simp)] at absent
          cases absent
      · rw [not_or] at stays
        exact ⟨middle, segment, enter_name middle stays.1 stays.2 up, directory, by simp, stays.1,
          stays.2, up, short⟩

theorem mem_of_mem_withoutSlashes {segments : List String} {name : String}
    (listed : name ∈ withoutSlashes segments) : name ∈ segments := by
  rw [withoutSlashes, List.mem_reverse] at listed
  exact List.mem_reverse.mp ((List.dropWhile_sublist _).subset listed)

section Changed

variable (sound : before.Sound) (home : before.node? working = some .directory)
include sound

theorem sound_of_writeFile {content : List UInt8}
    (written : before.writeFile working path content = .ok after) : after.Sound := by
  rcases writeFile_spec written with
    ⟨directory, name, executable, below, isName, -, present, noDirectory, rfl⟩
  rw [below] at noDirectory ⊢
  exact sound.put present isName (.inl noDirectory)

include home

theorem sound_of_makeDirectory (made : before.makeDirectory working path = .ok after) :
    after.Sound := by
  rcases makeDirectory_spec made with ⟨segments, location, usable, walked, rfl | ⟨absent, rfl⟩⟩
  · exact sound
  · have start : before.node? (origin working path) ≠ none := by
      rw [origin]
      split_ifs
      · exact Option.some_ne_none _
      · rw [home]
        exact Option.some_ne_none _
    rcases sound.absent_of_walk walked start absent with
      ⟨directory, name, rfl, present, listed, filled, single, double, short⟩
    have isName := isName_of_usable usable (mem_of_mem_withoutSlashes listed) filled single
      double short
    exact sound.put present isName (.inr rfl)

theorem sound_of_makeDirectories (made : before.makeDirectories working path = .ok after) :
    after.Sound := by
  rw [makeDirectories] at made
  generalize path.ancestors = paths at made
  induction paths generalizing after with
  | nil =>
      cases made
      exact sound
  | cons path above induction =>
      rcases makeNested_cons_spec made with direct | ⟨middle, nested, rest⟩
      · exact sound_of_makeDirectory sound home direct
      · have kept := (extends_of_makeNested nested).keepsDirectories working home
        exact sound_of_makeDirectory (induction nested) kept rest

end Changed

end FrameTiming.Host.FileTree

import FrameTiming.Host

/-! # File trees

Directories and files as a value: what every location holds. Operations on paths follow the rules of
a Unix system without links; each of them either fails with a `HostError` or gives the new tree.
-/

namespace FrameTiming.Host

/-- The names on the way from the root to an entry. -/
abbrev Location := List String

inductive Node where
  | directory
  | file (content : List UInt8) (executable : Bool)
deriving DecidableEq, Repr

/-- The entries below the root, the latest first. -/
structure FileTree where
  entries : List (Location × Node)
deriving DecidableEq, Repr

namespace FileTree

def empty : FileTree :=
  ⟨[]⟩

/-- The root is a directory; other locations hold what was put there last. -/
def node? (tree : FileTree) (location : Location) : Option Node :=
  if location = [] then some .directory else tree.entries.lookup location

def put (tree : FileTree) (location : Location) (node : Node) : FileTree :=
  ⟨(location, node) :: tree.entries⟩

theorem node?_put_self (tree : FileTree) {location : Location} (below : location ≠ [])
    (node : Node) : (tree.put location node).node? location = some node := by
  simp [node?, put, below]

theorem node?_put_of_ne (tree : FileTree) {location other : Location} (differs : other ≠ location)
    (node : Node) : (tree.put location node).node? other = tree.node? other := by
  simp [node?, put, List.lookup_cons, beq_false_of_ne differs]

/-! ## Finding a path -/

def nameLimit : Nat := 255

def pathLimit : Nat := 4095

/-- Follows segments from a location. Every segment needs a directory to start from; the last one
need not exist. -/
def walk (tree : FileTree) : Location → List String → Except HostError Location
  | location, [] => .ok location
  | location, segment :: rest =>
      match tree.node? location with
      | none => .error .notFound
      | some (.file ..) => .error .notDirectory
      | some .directory =>
          if segment = "" ∨ segment = "." then tree.walk location rest
          else if segment = ".." then tree.walk location.dropLast rest
          else if nameLimit < segment.utf8ByteSize then .error .nameTooLong
          else tree.walk (location ++ [segment]) rest

def origin (working : Location) (path : Path) : Location :=
  if path.isAbsolute then [] else working

def usableSegments (path : Path) : Except HostError (List String) :=
  if '\x00' ∈ path.text.toList then .error .nulInPath
  else if path.text = "" then .error .notFound
  else if pathLimit < path.text.utf8ByteSize then .error .nameTooLong
  else .ok path.segments

def locate (tree : FileTree) (working : Location) (path : Path) : Except HostError Location := do
  tree.walk (origin working path) (← usableSegments path)

def find (tree : FileTree) (working : Location) (path : Path) :
    Except HostError (Location × Node) := do
  let location ← tree.locate working path
  match tree.node? location with
  | some node => .ok (location, node)
  | none => .error .notFound

/-! ## Reading -/

def openFile (tree : FileTree) (working : Location) (path : Path) : Except HostError Opened := do
  match ← tree.find working path with
  | (_, .directory) => .ok .directory
  | (_, .file content _) => .ok (.bytes content)

def absolutePath (location : Location) : Path :=
  ⟨"/" ++ "/".intercalate location⟩

/-- The absolute path of something that exists. It can be too long although `path` is not. -/
def canonicalPath (tree : FileTree) (working : Location) (path : Path) : Except HostError Path := do
  let (location, _) ← tree.find working path
  if pathLimit < (absolutePath location).text.utf8ByteSize then .error .nameTooLong
  else .ok (absolutePath location)

/-! ## Writing -/

/-- The segments without the empty ones at the end, which slashes leave behind. -/
def withoutSlashes (segments : List String) : List String :=
  (segments.reverse.dropWhile (· = "")).reverse

def makeDirectory (tree : FileTree) (working : Location) (path : Path) :
    Except HostError FileTree := do
  let location ← tree.walk (origin working path) (withoutSlashes (← usableSegments path))
  match tree.node? location with
  | some .directory => .ok tree
  | some (.file ..) => .error .alreadyExists
  | none => .ok (tree.put location .directory)

/-- Creates the first of some directories, where each lies in the next one. Those that are missing
on the way are created before it. -/
def makeNested (tree : FileTree) (working : Location) : List Path → Except HostError FileTree
  | [] => .ok tree
  | path :: above =>
      match tree.makeDirectory working path with
      | .error .notFound => do (← tree.makeNested working above).makeDirectory working path
      | outcome => outcome

/-- Creates a directory and those above it that are missing. A path that ends in a dot asks for an
entry of a directory, which has to be there before. -/
def makeDirectories (tree : FileTree) (working : Location) (path : Path) :
    Except HostError FileTree :=
  tree.makeNested working path.ancestors

/-- Creates a file or replaces its content. A path that ends in a slash or in dots can only name a
directory. -/
def writeFile (tree : FileTree) (working : Location) (path : Path) (content : List UInt8) :
    Except HostError FileTree := do
  let segments ← usableSegments path
  let directory ← tree.walk (origin working path) (withoutSlashes segments).dropLast
  match tree.node? directory, segments.getLast? with
  | none, _ => .error .notFound
  | some (.file ..), _ => .error .notDirectory
  | some .directory, none | some .directory, some "" => .error .isDirectory
  | some .directory, some "." | some .directory, some ".." => .error .isDirectory
  | some .directory, some name =>
      let location ← tree.walk directory [name]
      match tree.node? location with
      | some .directory => .error .isDirectory
      | some (.file _ executable) => .ok (tree.put location (.file content executable))
      | none => .ok (tree.put location (.file content false))

def appendFile (tree : FileTree) (working : Location) (path : Path) (content : List UInt8) :
    Except HostError FileTree :=
  match tree.openFile working path with
  | .ok (.bytes before) => tree.writeFile working path (before ++ content)
  | _ => tree.writeFile working path content

/-! ## An example -/

private def sample : FileTree :=
  (empty.put ["d"] .directory).put ["f"] (.file [] false)

private def obstacle? (path : String) : Option HostError :=
  match sample.makeDirectories [] ⟨path⟩ with
  | .ok _ => none
  | .error error => some error

example : (obstacle? "d/.", obstacle? "n/", obstacle? "n/../d/m") = (none, none, none) := by
  decide +kernel
example : (obstacle? "n/.", obstacle? "f/m", obstacle? "f", obstacle? "n/../f/m")
    = (some .notFound, some .notDirectory, some .alreadyExists, some .alreadyExists) := by
  decide +kernel

end FileTree

end FrameTiming.Host

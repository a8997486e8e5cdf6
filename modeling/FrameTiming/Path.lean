import FrameTiming.Text.Blank

/-! # Paths

A path is the text it was given as. Its segments are the pieces between slashes; empty segments and
single dots name nothing, except for a dot that starts a relative path. Nothing here looks at a
file system.
-/

namespace FrameTiming

structure Path where
  text : String
deriving DecidableEq, Repr, Inhabited

namespace Path

/-! ## Segments -/

def isAbsolute (path : Path) : Bool :=
  path.text.toList.head? = some '/'

def segments (path : Path) : List String :=
  let pieces := (Text.splitAll '/' path.text.toList).map String.ofList
  if path.isAbsolute then pieces.tail else pieces

private def ofSegments (absolute : Bool) (segments : List String) : Path :=
  ⟨(if absolute then "/" else "") ++ "/".intercalate segments⟩

private def meaningful (absolute : Bool) : List String → List String
  | [] => []
  | segment :: rest =>
      match meaningfulRest rest with
      | [] => if segment = "" ∨ (absolute ∧ segment = ".") then [] else [segment]
      | rest => segment :: rest
where
  meaningfulRest : List String → List String
    | [] => []
    | segment :: rest =>
        match meaningfulRest rest with
        | [] => if segment = "" ∨ segment = "." then [] else [segment]
        | rest => segment :: rest

/-! ## Names and directories -/

def fileName? (path : Path) : Option String :=
  (meaningful path.isAbsolute path.segments).getLast?.filter fun name => name ≠ "." ∧ name ≠ ".."

/-- The path without its last segment. The root and the empty path have no parent. -/
def parent? (path : Path) : Option Path :=
  match meaningful path.isAbsolute path.segments with
  | [] => none
  | kept => some (ofSegments path.isAbsolute (meaningful path.isAbsolute kept.dropLast))

/-- The path and the directories above it, nearest first, as far as the path tells them. Each step
takes a segment away, so their number is fuel enough. -/
def ancestors (path : Path) : List Path :=
  if path.text = "" then [] else path :: above path.segments.length path
where
  above : (fuel : Nat) → Path → List Path
    | 0, _ => []
    | fuel + 1, path => match path.parent? with
        | none | some ⟨""⟩ => []
        | some parent => parent :: above fuel parent

def join (directory path : Path) : Path :=
  if path.isAbsolute then path
  else if directory.text = "" ∨ directory.text.toList.getLast? = some '/' then
    ⟨directory.text ++ path.text⟩
  else
    ⟨directory.text ++ "/" ++ path.text⟩

/-- A file name without its extension, which starts at the last dot. A dot in front starts none. -/
private def stem (name : String) : String :=
  let characters := name.toList
  match characters.reverse.dropWhile (· ≠ '.') with
  | [] => name
  | _ :: before => if before.isEmpty then name else String.ofList before.reverse

/-- The path with the extension of its file name exchanged. The old extension is taken off first: a
name of two dots and an extension, with nothing behind it, becomes the directory above, which takes
no extension. -/
def withExtension (path : Path) (extension : String) : Path :=
  match path.fileName? with
  | none => path
  | some name =>
      let directories := (meaningful path.isAbsolute path.segments).dropLast
      let exchanged :=
        if stem name = "." ∧ path.segments.getLast? = some name then ".."
        else stem name ++ "." ++ extension
      ofSegments path.isAbsolute (directories ++ [exchanged])

example : (withExtension ⟨"a/b.tar.gz"⟩ "png", withExtension ⟨"a/..x"⟩ "png", withExtension ⟨"a/..x/"⟩ "png")
    = (⟨"a/b.tar.png"⟩, ⟨"a/.."⟩, ⟨"a/..png"⟩) := by decide +kernel
example : ancestors ⟨"a/./b/"⟩ = [⟨"a/./b/"⟩, ⟨"a"⟩] ∧ ancestors ⟨"/a/.."⟩ = [⟨"/a/.."⟩, ⟨"/a"⟩, ⟨"/"⟩] := by
  decide +kernel

end Path

end FrameTiming

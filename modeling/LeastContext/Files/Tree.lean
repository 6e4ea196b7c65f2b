import LeastContext.Files.Path

namespace LeastContext

inductive Entry where
  | folder
  | text (content : String)
  /-- A file that holds no text. -/
  | binary
  deriving DecidableEq, Inhabited, Repr

structure FileTree where
  /-- The folder that paths start from. -/
  home : List String
  entries : List (List String × Entry)
  deriving DecidableEq, Inhabited, Repr

/-- Why nothing can be read at a path. -/
inductive Unreadable where
  | missing
  | notFolder
  | isFolder
  | notText
  /-- The path, or a name in it, is longer than file systems take. -/
  | tooLong
  deriving DecidableEq, Inhabited, Repr

def Unreadable.message : Unreadable → String
  | .missing => "No such file or directory (os error 2)"
  | .notFolder => "Not a directory (os error 20)"
  | .isFolder => "Is a directory (os error 21)"
  | .notText => "stream did not contain valid UTF-8"
  | .tooLong => "File name too long (os error 36)"

/-- The place that a component leads to from another place. -/
def Path.Component.enter (place : List String) : Component → List String
  | .root => []
  | .current => place
  | .parent => place.dropLast
  | .name text => place ++ [text]

namespace FileTree

variable (tree : FileTree)

/-- The place that a path leads to, whether or not anything is there. -/
def place (path : Path) : List String :=
  path.components.foldl Path.Component.enter tree.home

/-- Puts an entry at a path, in place of what was there. -/
def put (path : Path) (entry : Entry) : FileTree :=
  let place := tree.place path
  { tree with entries := tree.entries.filter (·.1 ≠ place) ++ [(place, entry)] }

/-- What is at a place. -/
def entry? (place : List String) : Option Entry :=
  match tree.entries.lookup place with
  | some entry => some entry
  | none =>
    if place.isPrefixOf tree.home || tree.entries.any fun (other, _) => place.isPrefixOf other then
      some .folder
    else none

/-- How many bytes a name may have, and from how many on a path is too long. -/
def nameLimit : Nat := 255

def pathLimit : Nat := 4096

def isTooLong (path : Path) : Bool :=
  pathLimit ≤ path.text.utf8ByteSize

/-- Follows a path segment by segment; all but the last must be folders. -/
def follow (place : List String) : List String → Except Unreadable (List String)
  | [] => .ok place
  | segment :: segments =>
    if tree.entry? place ≠ some .folder then .error .notFolder
    else if segment = "" ∨ segment = "." then follow place segments
    else if segment = ".." then follow place.dropLast segments
    else if nameLimit < segment.utf8ByteSize then .error .tooLong
    else
      let next := place ++ [segment]
      if (tree.entry? next).isNone then .error .missing else follow next segments

/-- The entry that a path leads to. -/
def locate (path : Path) : Except Unreadable (List String × Entry) := do
  if path.text.isEmpty then throw .missing
  if isTooLong path then throw .tooLong
  let place ← tree.follow (if path.isAbsolute then [] else tree.home) path.segments
  match tree.entry? place with
  | some entry => return (place, entry)
  | none => throw .missing

def exists? (path : Path) : Bool :=
  (tree.locate path).toBool

/-- The text of a file. -/
def read (path : Path) : Except Unreadable String := do
  match (← tree.locate path).2 with
  | .folder => throw .isFolder
  | .binary => throw .notText
  | .text content => return content

/-- The files anywhere below a place, as the names that lead to them from there. -/
def filesBelow (place : List String) : List (List String) :=
  tree.entries.filterMap fun (other, entry) =>
    match entry with
    | .folder => none
    | _ => place.isPrefixOf? other

end FileTree

end LeastContext

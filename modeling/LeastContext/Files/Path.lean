namespace LeastContext

structure Path where
  text : String
  deriving DecidableEq, Inhabited, Repr

namespace Path

inductive Component where
  | root
  | current
  | parent
  | name (text : String)
  deriving DecidableEq, Inhabited, Repr

/-- The parts between slashes; there is always at least one. -/
def splitSlashes : List Char → List (List Char)
  | [] => [[]]
  | c :: cs =>
    if c = '/' then [] :: splitSlashes cs
    else
      match splitSlashes cs with
      | [] => [[c]]
      | segment :: segments => (c :: segment) :: segments

def segments (path : Path) : List String :=
  (splitSlashes path.text.toList).map String.ofList

def isAbsolute (path : Path) : Bool :=
  path.text.toList.head? == some '/'

/-- What a segment stands for after the first one. -/
def Component.ofSegment? (segment : String) : Option Component :=
  if segment = "" ∨ segment = "." then none
  else if segment = ".." then some .parent
  else some (.name segment)

def components (path : Path) : List Component :=
  let rest := path.segments.filterMap Component.ofSegment?
  if path.isAbsolute then .root :: rest
  else if path.segments.head? = some "." then .current :: rest
  else rest

/-- Names come last and are ordered by code points. -/
def Component.notAfter : Component → Component → Bool
  | .root, _ => true
  | .current, .root => false
  | .current, _ => true
  | .parent, .root | .parent, .current => false
  | .parent, _ => true
  | .name _, .root | .name _, .current | .name _, .parent => false
  | .name a, .name b => a ≤ b

def componentsNotAfter : List Component → List Component → Bool
  | [], _ => true
  | _ :: _, [] => false
  | a :: as, b :: bs => if a = b then componentsNotAfter as bs else a.notAfter b

/-- The order of paths, component by component. -/
def notAfter (a b : Path) : Bool :=
  componentsNotAfter a.components b.components

/-- Whether two paths are written with the same components: repeated slashes and inner dots do not
count, but a leading dot does. -/
def same (a b : Path) : Bool :=
  a.components = b.components

/-- The path of an entry of a folder. -/
def join (path : Path) (name : String) : Path :=
  match path.text.toList.getLast? with
  | none => ⟨name⟩
  | some '/' => ⟨path.text ++ name⟩
  | some _ => ⟨path.text ++ "/" ++ name⟩

/-- What follows the last dot of a file name, unless that dot comes first. -/
def extension? (name : String) : Option String :=
  let (extension, rest) := name.toList.reverse.span (· != '.')
  match rest with
  | '.' :: _ :: _ => some (String.ofList extension.reverse)
  | _ => none

end Path

end LeastContext

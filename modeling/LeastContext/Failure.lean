namespace LeastContext

/-- Why a program cannot be analyzed. Findings about a program are never failures. -/
inductive Failure where
  /-- A file could not be read. -/
  | io (path message : String)
  /-- A dump is not a program; where in the text is given if known. -/
  | decode (path : String) (line column : Option Nat) (message : String)
  /-- A program that has a defect. -/
  | invalidProgram (message : String)
  /-- A state that no type-checked program is in. -/
  | invariant (message : String)
  /-- A configuration that cannot be applied. -/
  | config (path message : String)
  deriving DecidableEq, Inhabited, Repr

namespace Failure

def message : Failure → String
  | .io path message => s!"I/O error at {path}: {message}"
  | .decode path _ _ message => s!"Decode error in {path}: {message}"
  | .invalidProgram message => s!"Invalid program: {message}"
  | .invariant message => s!"Invariant violated: {message}"
  | .config path message => s!"Config error at {path}: {message}"

/-- A decoding failure at a line and column, of which zero means unknown. -/
def decodeAt (path message : String) (line column : Nat) : Failure :=
  .decode path (if line = 0 then none else some line) (if column = 0 then none else some column)
    message

/-- Whether the other programs of a batch can still be analyzed: a bad dump spoils its own package,
a bad configuration all of them. -/
def isRecoverable : Failure → Bool
  | .config .. => false
  | _ => true

def path? : Failure → Option String
  | .io path _ | .decode path _ _ _ | .config path _ => some path
  | .invalidProgram _ | .invariant _ => none

end Failure

end LeastContext

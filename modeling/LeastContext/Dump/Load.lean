import LeastContext.Dump.Decode
import LeastContext.Dump.Readable
import LeastContext.Failure
import LeastContext.Json.Reader
import LeastContext.Program.Defect

namespace LeastContext

namespace Program

/-- The program of a JSON value, defective or not. -/
def ofJson? (value : Json) : Option Program :=
  if Dump.isReadable value then Dump.program? value else none

/-- The program of a dump, defective or not. -/
def ofDump? (text : String) : Option Program :=
  Json.parse? text >>= ofJson?

/-- A program without defects, or why there is none. -/
def checked (p : Program) : Except Failure Program :=
  match p.defect? with
  | some defect => .error (.invalidProgram defect.message)
  | none => .ok p

/-- Loads the dump with a given path and text. -/
def ofText (path text : String) : Except Failure Program :=
  match ofDump? text with
  | none => .error (.decodeAt path "not a program" 0 0)
  | some p => p.checked

end Program

end LeastContext

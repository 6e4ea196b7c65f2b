import LeastContext.Analysis.Verdict
import LeastContext.Json.Writer

namespace LeastContext

def ProblemKind.word : ProblemKind → String
  | .allUnused => "all_unused"
  | .unrequested => "unrequested"
  | .unused => "unused"

def ProblemKind.message (kind : ProblemKind) (subject : String) (interfaces : List String) :
    String :=
  let list := ", ".intercalate interfaces
  match kind with
  | .allUnused =>
    s!"no interfaces requested by {subject} are used; remove them or rename it to _ if it's unused"
  | .unrequested =>
    s!"{subject} uses but does not explicitly request interface(s) {list}; add it explicitly"
  | .unused =>
    s!"{subject} requests but does not use interface(s) {list}; remove to use the smallest possible interface"

structure Diagnostic where
  file : String
  line : Nat
  column : Nat
  /-- The name of the variable. -/
  subject : String
  kind : ProblemKind
  /-- The names of the interfaces at fault. -/
  interfaces : List String
  deriving DecidableEq, Inhabited, Repr

namespace Diagnostic

def message (d : Diagnostic) : String :=
  d.kind.message d.subject d.interfaces

/-- The finding as one line. -/
def plain (d : Diagnostic) : String :=
  s!"{d.file}:{d.line}:{d.column}: {d.message}"

/-- The order of reports: by file, then line, then column. -/
def notAfter (a b : Diagnostic) : Bool :=
  if a.file = b.file then
    if a.line = b.line then a.column ≤ b.column else a.line < b.line
  else a.file < b.file

/-- The finding as a record with its keys in alphabetical order. -/
def toJson (d : Diagnostic) : Json :=
  .record [("column", .natural d.column), ("file", .text d.file),
    ("interfaces", .ofList .text d.interfaces), ("kind", .text d.kind.word),
    ("line", .natural d.line), ("message", .text d.message), ("variable", .text d.subject)]

end Diagnostic

/-- Findings as lines of text. -/
def plainReport (diagnostics : List Diagnostic) : String :=
  match diagnostics with
  | [] => "No capability problems found.\n"
  | diagnostics =>
    String.join (diagnostics.map fun d => d.plain ++ "\n") ++
      s!"\n{diagnostics.length} problem(s) found.\n"

/-- Findings as an indented JSON document. -/
def jsonReport (diagnostics : List Diagnostic) : String :=
  (Json.record [("count", .natural diagnostics.length),
    ("diagnostics", .ofList Diagnostic.toJson diagnostics)]).indented 0 ++ "\n"

end LeastContext

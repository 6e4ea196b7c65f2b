import LeastContext.Analysis.Collection
import LeastContext.Analysis.Diagnostic
import LeastContext.Analysis.Marking
import LeastContext.Analysis.Pooling
import LeastContext.Dump.Load

namespace LeastContext

structure Stats where
  tracked : Nat
  sharedRecords : Nat
  unified : Nat
  uses : Nat
  allUnused : Nat
  unrequested : Nat
  unused : Nat
  deriving DecidableEq, Inhabited, Repr

structure Analysis where
  /-- The path of the analyzed package. -/
  package : String
  diagnostics : List Diagnostic
  stats : Stats
  deriving DecidableEq, Inhabited, Repr

/-- What the diagnostics, the ledger and the counts of the phases come to. -/
def Analysis.of (package : String) (diagnostics : List Diagnostic) (unified : Nat)
    (marking : Marking) : Analysis where
  package
  diagnostics
  stats := {
    tracked := marking.ledger.size
    sharedRecords := marking.ledger.recordCount
    unified
    uses := marking.uses
    allUnused := diagnostics.countP (·.kind = .allUnused)
    unrequested := diagnostics.countP (·.kind = .unrequested)
    unused := diagnostics.countP (·.kind = .unused) }

open Evaluation

namespace Program

/-- The file, line and column to report an object at; one without a position has no file. -/
def place (p : Program) (object : Object) : String × Nat × Nat :=
  match object.pos with
  | some pos => (p.fileName pos, pos.line.toNat, pos.column.toNat)
  | none => ("", 0, 0)

/-- A finding about an object. -/
def finding (p : Program) (object : Object) (kind : ProblemKind) (interfaces : List String) :
    Diagnostic where
  file := (p.place object).1
  line := (p.place object).2.1
  column := (p.place object).2.2
  subject := object.name
  kind
  interfaces

section Queries

variable {m : Type → Type} [Evaluation m] (p : Program)

/-- The name of a type in a message about a package. -/
def shortNameM (home : Option PackageId) : Nameable → m String
  | .type id => p.renderM ⟨home, false⟩ id
  | .methods id => do
    match ← p.interfaceM id with
    | some body => p.renderInterfaceM home { body with embeds := [] }
    | none => p.renderM ⟨home, false⟩ id

/-- The names of interfaces in a message about a package, ascending and each once. -/
def nameListM (home : Option PackageId) (ids : List TypeId) : m (List String) := do
  let nameables := (← ids.mapM (p.expandM home)).flatten
  let names ← nameables.mapM (p.shortNameM home)
  return (names.mergeSort fun a b => a ≤ b).eraseDups

/-- The finding about a variable, if there is one. -/
def diagnoseM (ledger : Ledger) (v : VarId) : m (Option Diagnostic) := do
  let id := (ledger.variableAt v).object
  match ← p.requestM id with
  | none => return none
  | some request =>
    match (← p.problemsM request (ledger.usage v)).primary with
    | none => return none
    | some problem =>
      let names ← p.nameListM (some p.package) problem.2
      return some (p.finding (← p.objectM id) problem.1 names)

/-- Whether a variable is reported on; those of test files are only on demand. -/
def isInScopeM (settings : Settings) (includeTests : Bool) (ledger : Ledger) (v : VarId) :
    m Bool := do
  let object ← p.objectM (ledger.variableAt v).object
  return includeTests || !settings.isTestFile (p.place object).1

/-- The findings about all tracked variables, in source order. -/
def reportM (settings : Settings) (includeTests : Bool) (ledger : Ledger) :
    m (List Diagnostic) := do
  let reported ← keep (p.isInScopeM settings includeTests ledger) ledger.active
  let found := (← reported.mapM (p.diagnoseM ledger)).filterMap (·)
  return found.mergeSort Diagnostic.notAfter

/-- Analyzes a program that has no defects: collects the variables, pools the records of sibling
implementations, marks the uses and reports what is wrong. -/
def analyzeCheckedM (settings : Settings) (includeTests : Bool) :
    m (Except Failure Analysis) := do
  let (pooled, unified) ← p.poolM (← p.collectM settings)
  match ← p.markUsesM settings pooled with
  | (_, some breach) => return .error (.invariant breach.message)
  | (marking, none) =>
    let diagnostics ← p.reportM settings includeTests marking.ledger
    let package ← p.packageOfM p.package
    return .ok (.of package.path diagnostics unified marking)

/-- Analyzes a program, or says why it cannot be analyzed. -/
def analyzeM (settings : Settings) (includeTests : Bool) : m (Except Failure Analysis) :=
  match p.checked with
  | .error failure => pure (.error failure)
  | .ok p => p.analyzeCheckedM settings includeTests

end Queries

section Plain

variable (p : Program)

def shortName (home : Option PackageId) (nameable : Nameable) : String :=
  Id.run (p.shortNameM home nameable)

def nameList (home : Option PackageId) (ids : List TypeId) : List String :=
  Id.run (p.nameListM home ids)

def diagnose? (ledger : Ledger) (v : VarId) : Option Diagnostic :=
  Id.run (p.diagnoseM ledger v)

def isInScope (settings : Settings) (includeTests : Bool) (ledger : Ledger) (v : VarId) : Bool :=
  Id.run (p.isInScopeM settings includeTests ledger v)

def report (settings : Settings) (includeTests : Bool) (ledger : Ledger) : List Diagnostic :=
  Id.run (p.reportM settings includeTests ledger)

def analyzeChecked (settings : Settings) (includeTests : Bool) : Except Failure Analysis :=
  Id.run (p.analyzeCheckedM settings includeTests)

def analyze (settings : Settings) (includeTests : Bool) : Except Failure Analysis :=
  Id.run (p.analyzeM settings includeTests)

theorem shortName_methods (home : Option PackageId) (id : TypeId) :
    p.shortName home (.methods id) =
      match p.interface? id with
      | some body => p.renderInterface home { body with embeds := [] }
      | none => p.render ⟨home, false⟩ id :=
  rfl

theorem nameList_def (home : Option PackageId) (ids : List TypeId) :
    p.nameList home ids =
      (((ids.flatMap (p.expand home)).map (p.shortName home)).mergeSort
        fun a b => a ≤ b).eraseDups := by
  rw [nameList, nameListM]
  simp only [mapM_plain, List.flatMap_def]
  rfl

theorem diagnose?_def (ledger : Ledger) (v : VarId) :
    p.diagnose? ledger v =
      (p.request? (ledger.variableAt v).object).bind fun request =>
        (p.problems request (ledger.usage v)).primary.map fun problem =>
          p.finding (p.object (ledger.variableAt v).object) problem.1
            (p.nameList (some p.package) problem.2) := by
  rw [diagnose?, diagnoseM]
  change Id.run (match p.request? (ledger.variableAt v).object with | none => _ | some _ => _) = _
  cases p.request? (ledger.variableAt v).object with
  | none => rfl
  | some request =>
    change Id.run (match (p.problems request (ledger.usage v)).primary with
      | none => _ | some _ => _) = _
    rw [Option.bind_some]
    cases (p.problems request (ledger.usage v)).primary <;> rfl

theorem isInScope_def (settings : Settings) (includeTests : Bool) (ledger : Ledger) (v : VarId) :
    p.isInScope settings includeTests ledger v =
      (includeTests ||
        !settings.isTestFile (p.place (p.object (ledger.variableAt v).object)).1) :=
  rfl

theorem report_def (settings : Settings) (includeTests : Bool) (ledger : Ledger) :
    p.report settings includeTests ledger =
      ((ledger.active.filter (p.isInScope settings includeTests ledger)).filterMap
        (p.diagnose? ledger)).mergeSort Diagnostic.notAfter := by
  rw [report, reportM]
  simp only [mapM_plain, keep_plain, pure_bind, List.filterMap_map]
  rfl

theorem analyzeChecked_def (settings : Settings) (includeTests : Bool) :
    p.analyzeChecked settings includeTests =
      match p.markUses settings (p.pool (p.collect settings)).1 with
      | (_, some breach) => .error (.invariant breach.message)
      | (marking, none) =>
        .ok (.of (p.packageOf p.package).path (p.report settings includeTests marking.ledger)
          (p.pool (p.collect settings)).2 marking) :=
  rfl

theorem analyze_def (settings : Settings) (includeTests : Bool) :
    p.analyze settings includeTests =
      match p.checked with
      | .error failure => .error failure
      | .ok p => p.analyzeChecked settings includeTests := by
  rw [analyze, analyzeM]
  cases p.checked <;> rfl

end Plain

end Program

end LeastContext

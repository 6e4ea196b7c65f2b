import LeastContext.Ledger
import LeastContext.Settings.Basic
import LeastContext.Syntax.Node
import LeastContext.Type.Rendering

namespace LeastContext

/-- What an expression says about a variable. -/
inductive Mark where
  | interface (object : ObjectId) (type : TypeId)
  | method (object : ObjectId) (name : String)
  | cached (object : ObjectId)
  | dropped (object : ObjectId)
  deriving DecidableEq, Inhabited, Repr

/-- What no type-checked program has. -/
inductive Breach where
  | untypedCallee
  | notAFunction (type : String)
  deriving DecidableEq, Inhabited, Repr

def Breach.message : Breach → String
  | .untypedCallee => "call expression whose callee has no type"
  | .notAFunction type => s!"callee of type `{type}` is not a function"

/-- A ledger with the number of uses recorded in it. -/
structure Marking where
  ledger : Ledger
  uses : Nat

namespace Marking

/-- Applies a mark; marks of objects that are not tracked are passed over. -/
def apply (marking : Marking) : Mark → Marking
  | .interface object type =>
    match marking.ledger.lookup object with
    | some v => ⟨marking.ledger.record (·.addInterface type) v, marking.uses + 1⟩
    | none => marking
  | .method object name =>
    match marking.ledger.lookup object with
    | some v => ⟨marking.ledger.record (·.addMethod name) v, marking.uses + 1⟩
    | none => marking
  | .cached object =>
    match marking.ledger.lookup object with
    | some v => { marking with ledger := marking.ledger.record (·.setCached true) v }
    | none => marking
  | .dropped object => { marking with ledger := marking.ledger.untrack object }

end Marking

mutual
/-- The object that a callee refers to: a function, a function of a package or a method. -/
def Expr.calleeObject? : Expr → Option ObjectId
  | ⟨form, _⟩ => form.calleeObject?

def ExprForm.calleeObject? : ExprForm → Option ObjectId
  | .ident name => name.object?
  | .selector _ member => member.object?
  | .paren inner => inner.calleeObject?
  | _ => none
end

/-- The object of an expression that is a bare identifier. -/
def Expr.variable? (expr : Expr) : Option ObjectId :=
  expr.ident?.bind Ident.object?

/-- The use of a value as a type, if the value is a bare identifier. -/
def Expr.marksAs (value : Expr) (type : TypeId) : List Mark :=
  value.variable?.toList.map fun object => .interface object type

/-- The method called on a bare identifier. -/
def Expr.receiverMarks (callee : Expr) : List Mark :=
  match callee.form with
  | .selector operand member =>
    operand.variable?.toList.map fun object => .method object member.name
  | _ => []

open Evaluation

namespace Program

/-- The marks of the elements of a struct literal, by key or by position. -/
def elementMarks (fields : List StructField) (elements : List Expr) : List Mark :=
  (elements.mapIdx fun i element =>
    match element.form with
    | .keyValue key value =>
      match key.type with
      | some type => value.marksAs type
      | none => []
    | _ =>
      match fields[i]? with
      | some field => element.marksAs field.type
      | none => []).flatten

/-- All expressions of a program, in source order. -/
def exprs (p : Program) : List Expr :=
  p.files.flatMap fun file => (Node.file file).all.filterMap fun node =>
    match node with
    | .expr e => some e
    | _ => none

section Queries

variable {m : Type → Type} [Evaluation m] (p : Program)

/-- The signature of a callee; builtins have none. -/
def calleeSignatureM (callee : Expr) : m (Except Breach (Option Signature)) := do
  match callee.type with
  | none =>
    match callee.calleeObject? with
    | some object =>
      return if (← p.objectM object).kind = .builtin then .ok none else .error .untypedCallee
    | none => return .error .untypedCallee
  | some type =>
    match ← p.formM (← p.underlyingM type) with
    | .signature sig => return .ok (some sig)
    | _ => return .error (.notAFunction (← p.renderM ⟨some p.package, false⟩ type))

/-- The type that an argument is used as. From the last parameter of a variadic signature on, and
unless the last argument is spread, that is the element of the last parameter. -/
def argumentTypeM (sig : Signature) (spread : Bool) (i : Nat) : m (Option TypeId) := do
  match sig.params.getLast? with
  | none => return none
  | some last =>
    if sig.variadic && !spread && sig.params.length ≤ i + 1 then
      return some ((← p.sliceElemM last.type).getD last.type)
    else return (sig.params[i]?).map (·.type)

def argumentMarkM (sig : Signature) (spread : Bool) (arg : Expr × Nat) : m (List Mark) := do
  match ← p.argumentTypeM sig spread arg.2 with
  | some type => return arg.1.marksAs type
  | none => return []

def argumentMarksM (sig : Signature) (spread : Bool) (args : List Expr) : m (List Mark) := do
  return (← args.zipIdx.mapM (p.argumentMarkM sig spread)).flatten

/-- The first parameter of a function type; its object has to be there. -/
def firstParamM (type : TypeId) : m (Option ObjectId) := do
  match ← p.formM type with
  | .signature sig =>
    match sig.params.head?.bind (·.object) with
    | some param =>
      let _ ← p.objectM param
      return some param
    | none => return none
  | _ => return none

/-- The first parameter of the function given as first argument, if the callee is one of the named
functions. -/
def wrappedParamM (names : List String) (callee : Expr) (args : List Expr) :
    m (Option ObjectId) := do
  match callee.calleeObject? with
  | none => return none
  | some f =>
    if (← p.qualifiedNameM f).any (· ∈ names) then
      match args.head?.bind (·.type) with
      | some type => p.firstParamM type
      | none => return none
    else return none

def callMarksM (settings : Settings) (callee : Expr) (args : List Expr) (spread : Bool) :
    m (Except Breach (List Mark)) := do
  match ← p.calleeSignatureM callee with
  | .error breach => return .error breach
  | .ok signature =>
    let arguments ←
      match signature with
      | some sig => p.argumentMarksM sig spread args
      | none => pure []
    let memoized ← p.wrappedParamM settings.memoizeFunctions callee args
    let keyed ← p.wrappedParamM settings.keyParamFunctions callee args
    return .ok (arguments ++ callee.receiverMarks ++ (memoized.map .cached).toList ++
      (keyed.map .dropped).toList)

/-- The marks of a composite literal; only those of struct types have any. -/
def literalMarksM (type : Option TypeId) (elements : List Expr) : m (List Mark) := do
  match type with
  | none => return []
  | some type =>
    match ← p.formM (← p.underlyingM type) with
    | .struct fields => return elementMarks fields elements
    | _ => return []

/-- The marks an expression makes itself, apart from those of its parts. A variable is marked where
it stands as a bare identifier, possibly in parentheses: as the argument of a call, the receiver of
a method call, the operand of a type assertion or the value of a struct field. What else happens to
a variable is not seen. -/
def marksM (settings : Settings) (expr : Expr) : m (Except Breach (List Mark)) := do
  match expr.form with
  | .typeAssert operand (some target) =>
    return .ok (match target.type with
      | some type => operand.marksAs type
      | none => [])
  | .call callee args spread => p.callMarksM settings callee args spread
  | .compositeLit _ elements => return .ok (← p.literalMarksM expr.type elements)
  | _ => return .ok []

/-- Marks what expressions use, one after the other, up to the first breach. -/
def markExprsM (settings : Settings) (marking : Marking) :
    List Expr → m (Marking × Option Breach)
  | [] => return (marking, none)
  | expr :: exprs => do
    match ← p.marksM settings expr with
    | .ok marks => markExprsM settings (marks.foldl Marking.apply marking) exprs
    | .error breach => return (marking, some breach)

/-- Marks all uses in a program. -/
def markUsesM (settings : Settings) (ledger : Ledger) : m (Marking × Option Breach) :=
  p.markExprsM settings ⟨ledger, 0⟩ p.exprs

end Queries

section Plain

variable (p : Program)

def calleeSignature (callee : Expr) : Except Breach (Option Signature) :=
  Id.run (p.calleeSignatureM callee)

def argumentType? (sig : Signature) (spread : Bool) (i : Nat) : Option TypeId :=
  Id.run (p.argumentTypeM sig spread i)

def argumentMarks (sig : Signature) (spread : Bool) (args : List Expr) : List Mark :=
  Id.run (p.argumentMarksM sig spread args)

def firstParam? (type : TypeId) : Option ObjectId :=
  Id.run (p.firstParamM type)

def wrappedParam? (names : List String) (callee : Expr) (args : List Expr) : Option ObjectId :=
  Id.run (p.wrappedParamM names callee args)

def callMarks (settings : Settings) (callee : Expr) (args : List Expr) (spread : Bool) :
    Except Breach (List Mark) :=
  Id.run (p.callMarksM settings callee args spread)

def literalMarks (type : Option TypeId) (elements : List Expr) : List Mark :=
  Id.run (p.literalMarksM type elements)

def marks (settings : Settings) (expr : Expr) : Except Breach (List Mark) :=
  Id.run (p.marksM settings expr)

def markExprs (settings : Settings) (marking : Marking) (exprs : List Expr) :
    Marking × Option Breach :=
  Id.run (p.markExprsM settings marking exprs)

def markUses (settings : Settings) (ledger : Ledger) : Marking × Option Breach :=
  Id.run (p.markUsesM settings ledger)

theorem calleeSignature_def (callee : Expr) :
    p.calleeSignature callee =
      match callee.type with
      | none =>
        if callee.calleeObject?.any fun object => (p.object object).kind = .builtin then .ok none
        else .error .untypedCallee
      | some type =>
        match p.form (p.underlying type) with
        | .signature sig => .ok (some sig)
        | _ => .error (.notAFunction (p.render ⟨some p.package, false⟩ type)) := by
  rw [calleeSignature, calleeSignatureM]
  cases callee.type with
  | none =>
    cases callee.calleeObject? with
    | none => rfl
    | some object =>
      change (if (p.object object).kind = .builtin then _ else _) = _
      simp
  | some type => rfl

theorem argumentType?_def (sig : Signature) (spread : Bool) (i : Nat) :
    p.argumentType? sig spread i =
      match sig.params.getLast? with
      | none => none
      | some last =>
        if sig.variadic && !spread && sig.params.length ≤ i + 1 then
          some ((p.sliceElem? last.type).getD last.type)
        else (sig.params[i]?).map (·.type) :=
  rfl

theorem argumentMarks_def (sig : Signature) (spread : Bool) (args : List Expr) :
    p.argumentMarks sig spread args =
      (args.mapIdx fun i arg =>
        match p.argumentType? sig spread i with
        | some type => arg.marksAs type
        | none => []).flatten := by
  rw [argumentMarks, argumentMarksM]
  simp only [mapM_plain, List.mapIdx_eq_zipIdx_map]
  rfl

theorem firstParam?_def (type : TypeId) :
    p.firstParam? type =
      match p.form type with
      | .signature sig => sig.params.head?.bind (·.object)
      | _ => none := by
  rw [firstParam?, firstParamM]
  change Id.run (match p.form type with | .signature _ => _ | _ => _) = _
  cases p.form type with
  | signature sig =>
    dsimp only
    cases sig.params.head?.bind (·.object) <;> rfl
  | _ => rfl

theorem wrappedParam?_def (names : List String) (callee : Expr) (args : List Expr) :
    p.wrappedParam? names callee args =
      callee.calleeObject?.bind fun f =>
        if (p.qualifiedName? f).any (· ∈ names) then
          (args.head?.bind (·.type)).bind p.firstParam?
        else none := by
  rw [wrappedParam?, wrappedParamM]
  cases callee.calleeObject? with
  | none => rfl
  | some f => cases args.head?.bind (·.type) <;> rfl

theorem callMarks_def (settings : Settings) (callee : Expr) (args : List Expr) (spread : Bool) :
    p.callMarks settings callee args spread = (do
      let arguments :=
        match ← p.calleeSignature callee with
        | some sig => p.argumentMarks sig spread args
        | none => []
      return arguments ++ callee.receiverMarks ++
        ((p.wrappedParam? settings.memoizeFunctions callee args).map .cached).toList ++
        ((p.wrappedParam? settings.keyParamFunctions callee args).map .dropped).toList) := by
  rw [callMarks, callMarksM]
  change Id.run (match p.calleeSignature callee with | .error _ => _ | .ok _ => _) = _
  rcases p.calleeSignature callee with _ | _ | _ <;> rfl

theorem literalMarks_def (type : Option TypeId) (elements : List Expr) :
    p.literalMarks type elements =
      match type.map fun type => p.form (p.underlying type) with
      | some (.struct fields) => elementMarks fields elements
      | _ => [] := by
  cases type with
  | none => rfl
  | some type =>
    rw [literalMarks, literalMarksM]
    change Id.run (match p.form (p.underlying type) with | .struct _ => _ | _ => _) = _
    simp only [Option.map_some]
    cases p.form (p.underlying type) <;> rfl

theorem marks_def (settings : Settings) (expr : Expr) :
    p.marks settings expr =
      match expr.form with
      | .typeAssert operand (some target) =>
        .ok (match target.type with
          | some type => operand.marksAs type
          | none => [])
      | .call callee args spread => p.callMarks settings callee args spread
      | .compositeLit _ elements => .ok (p.literalMarks expr.type elements)
      | _ => .ok [] :=
  rfl

theorem markExprs_nil (settings : Settings) (marking : Marking) :
    p.markExprs settings marking [] = (marking, none) :=
  rfl

theorem markExprs_cons (settings : Settings) (marking : Marking) (expr : Expr)
    (exprs : List Expr) :
    p.markExprs settings marking (expr :: exprs) =
      match p.marks settings expr with
      | .ok marks => p.markExprs settings (marks.foldl Marking.apply marking) exprs
      | .error breach => (marking, some breach) :=
  rfl

theorem markUses_def (settings : Settings) (ledger : Ledger) :
    p.markUses settings ledger = p.markExprs settings ⟨ledger, 0⟩ p.exprs :=
  rfl

end Plain

end Program

end LeastContext

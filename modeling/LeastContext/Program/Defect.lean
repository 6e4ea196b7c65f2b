import LeastContext.Digraph.Cycle
import LeastContext.Program.Basic
import LeastContext.Syntax.Node

namespace LeastContext

/-- The part of a program that holds a reference. -/
inductive Referrer where
  | type (id : TypeId)
  | object (name : String)
  | identifier (name : String)
  | expression
  deriving DecidableEq, Inhabited, Repr

inductive Defect where
  | unknownPackage (id : PackageId)
  | dangling (referrer : Referrer) (reference : Reference)
  | noUnderlying (id : TypeId)
  | containsItself (id : TypeId)
  | embedsItself (id : TypeId)
  deriving DecidableEq, Inhabited, Repr

def Referrer.label : Referrer → String
  | .type id => id.label
  | .object name => s!"object `{name}`"
  | .identifier name => s!"identifier `{name}`"
  | .expression => "expression"

def Reference.label : Reference → String
  | .type id => "type " ++ id.label
  | .object id => "object " ++ id.label
  | .package id => "package " ++ id.label

def Defect.message : Defect → String
  | .unknownPackage id => s!"analyzed package {id.label} is not in the package table"
  | .dangling referrer reference =>
    s!"{referrer.label} references missing {reference.label}"
  | .noUnderlying id => s!"named type {id.label} has no underlying type"
  | .containsItself id => s!"type {id.label} contains itself without a type name"
  | .embedsItself id => s!"interface {id.label} embeds itself"

def TypeForm.references : TypeForm → List Reference
  | .basic _ => []
  | .named decl =>
    decl.package.toList.map .package ++ [.type decl.underlying] ++
      decl.methods.map fun method => .object method.func
  | .pointer elem | .slice elem | .array _ elem => [.type elem]
  | .map key value => [.type key, .type value]
  | .signature sig =>
    (sig.params.flatMap fun param => .type param.type :: param.object.toList.map .object) ++
      sig.results.map .type
  | .struct fields => fields.map fun field => .type field.type
  | .interface body =>
    (body.methods.flatMap fun method =>
      method.package.toList.map .package ++ [.type method.signature]) ++
      body.embeds.map .type

def ObjectKind.references : ObjectKind → List Reference
  | .method receiver => [.type receiver]
  | _ => []

def Object.references (object : Object) : List Reference :=
  object.package.toList.map .package ++ object.type.toList.map .type ++ object.kind.references

/-- The references a node holds itself, apart from those of its children. -/
def Node.references : Node → List (Referrer × Reference)
  | .ident i => i.object?.toList.map fun id => (.identifier i.name, .object id)
  | .expr e => e.type.toList.map fun id => (.expression, .type id)
  | _ => []

namespace Program

variable (p : Program)

def resolves : Reference → Bool
  | .type id => id.index < p.types.size
  | .object id => id.index < p.objects.size
  | .package id => id.index < p.packages.size

/-- Every reference of a program, in the order they are checked. -/
def references : List (Referrer × Reference) :=
  (p.typeIds.flatMap fun id => (p.form id).references.map (.type id, ·)) ++
    (p.objects.toList.flatMap fun object => object.references.map (.object object.name, ·)) ++
    p.files.flatMap fun file => (Node.file file).all.flatMap Node.references

def dangling? : Option Defect :=
  (p.references.find? fun (_, reference) => !p.resolves reference).map fun (referrer, reference) =>
    .dangling referrer reference

def unfounded? : Option Defect :=
  (p.typeIds.find? fun id => (p.form id).isNamed && (p.form (p.underlying id)).isNamed).map
    .noUnderlying

/-- The first defect of a program, handles before cycles. -/
def defect? : Option Defect :=
  if p.package.index < p.packages.size then
    p.dangling? <|> p.unfounded? <|>
      (Digraph.findCycle p.typeIds fun id => (p.form id).parts).map .containsItself <|>
      (Digraph.findCycle p.typeIds p.embeds).map .embedsItself
  else some (.unknownPackage p.package)

end Program

end LeastContext

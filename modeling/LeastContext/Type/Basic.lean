import LeastContext.Program.Handle

namespace LeastContext

/-- A parameter of a signature, with the variable that declares it where that is known. -/
structure Param where
  type : TypeId
  object : Option ObjectId
  deriving DecidableEq, Inhabited, Repr

structure Signature where
  params : List Param
  results : List TypeId
  variadic : Bool
  deriving DecidableEq, Inhabited, Repr

/-- A method written in an interface body. Its package matters only for an unexported name. -/
structure InterfaceMethod where
  name : String
  package : Option PackageId
  signature : TypeId
  deriving DecidableEq, Inhabited, Repr

/-- The methods and embedded types written in an interface body. -/
structure Interface where
  methods : List InterfaceMethod
  embeds : List TypeId
  deriving DecidableEq, Inhabited, Repr

/-- A method attached to a named type; the type of its object is its signature. -/
structure DeclaredMethod where
  func : ObjectId
  pointerReceiver : Bool
  deriving DecidableEq, Inhabited, Repr

structure NamedType where
  name : String
  package : Option PackageId
  underlying : TypeId
  methods : List DeclaredMethod
  deriving DecidableEq, Inhabited, Repr

structure StructField where
  name : String
  type : TypeId
  embedded : Bool
  deriving DecidableEq, Inhabited, Repr

/-- A type refers to its parts by handle, so that types may be recursive through a name. -/
inductive TypeForm where
  | basic (name : String)
  | named (decl : NamedType)
  | pointer (elem : TypeId)
  | slice (elem : TypeId)
  | array (length : UInt64) (elem : TypeId)
  | map (key value : TypeId)
  | signature (sig : Signature)
  | struct (fields : List StructField)
  | interface (body : Interface)
  deriving DecidableEq, Inhabited, Repr

namespace Interface

def declares (body : Interface) (method : String) : Bool :=
  body.methods.any (·.name == method)

def isEmpty (body : Interface) : Bool :=
  body.methods.isEmpty && body.embeds.isEmpty

end Interface

namespace TypeForm

def isNamed : TypeForm → Bool
  | .named _ => true
  | _ => false

/-- The types a type is made of. A named type is opaque: its definition is not a part of it. -/
def parts : TypeForm → List TypeId
  | .basic _ | .named _ => []
  | .pointer elem | .slice elem | .array _ elem => [elem]
  | .map key value => [key, value]
  | .signature sig => sig.params.map (·.type) ++ sig.results
  | .struct fields => fields.map (·.type)
  | .interface body => body.methods.map (·.signature) ++ body.embeds

end TypeForm

end LeastContext

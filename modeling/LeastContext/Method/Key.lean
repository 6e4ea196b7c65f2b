import LeastContext.Program.Basic

namespace LeastContext

/-- Exported names match across packages, unexported ones only within the package that declares
them. -/
structure MethodKey where
  name : String
  package : Option PackageId
  deriving DecidableEq, Inhabited, Repr

/-- The key of a method declared under a name in a package. -/
def MethodKey.of (name : String) (package : Option PackageId) : MethodKey :=
  ⟨name, if Text.isExported name then none else package⟩

def InterfaceMethod.key (method : InterfaceMethod) : MethodKey :=
  .of method.name method.package

def Object.methodKey (object : Object) : MethodKey :=
  .of object.name object.package

/-- A method as others see it: its key and its signature. -/
structure Method where
  key : MethodKey
  signature : TypeId
  deriving DecidableEq, Inhabited, Repr

end LeastContext

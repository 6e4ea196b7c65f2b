import LeastContext.Type.Identity

namespace LeastContext

open Evaluation

namespace Program

section Queries

variable {m : Type → Type} [Evaluation m] (p : Program)

/-- Whether a list of methods covers an interface: it has to hold every method of the interface
under the same key with an identical signature. Nothing covers a type that is no interface. -/
def satisfiesM (methods : List Method) (interface : TypeId) : m Bool := do
  if ← p.isInterfaceM interface then
    (← p.interfaceMethodsM interface).allM fun wanted => methods.anyM fun method =>
      if method.key = wanted.key then p.identicalM method.signature wanted.signature
      else return false
  else return false

/-- Whether a value of a type satisfies an interface. -/
def implementsM (id interface : TypeId) : m Bool := do
  if id = interface then p.isInterfaceM interface
  else p.satisfiesM (← p.methodSetM id) interface

/-- Whether a pointer to a named type satisfies an interface. -/
def pointerImplementsM (named interface : TypeId) : m Bool := do
  p.satisfiesM (← p.promotedMethodsM named true) interface

end Queries

section Plain

variable (p : Program)

def satisfies (methods : List Method) (interface : TypeId) : Bool :=
  Id.run (p.satisfiesM methods interface)

def implements (id interface : TypeId) : Bool :=
  Id.run (p.implementsM id interface)

def pointerImplements (named interface : TypeId) : Bool :=
  Id.run (p.pointerImplementsM named interface)

theorem satisfies_def (methods : List Method) (interface : TypeId) :
    p.satisfies methods interface =
      (p.isInterface interface && (p.interfaceMethods interface).all fun wanted =>
        methods.any fun method =>
          method.key = wanted.key && p.identical method.signature wanted.signature) := by
  have asked : ∀ method wanted : Method,
      (if method.key = wanted.key then p.identical method.signature wanted.signature else false) =
        (decide (method.key = wanted.key) && p.identical method.signature wanted.signature) := by
    intro method wanted
    by_cases h : method.key = wanted.key <;> simp [h]
  simp only [← asked]
  rw [satisfies, satisfiesM]
  simp only [allM_plain, anyM_plain]
  change (if p.isInterface interface then _ else _) = _
  cases p.isInterface interface <;> rfl

theorem implements_def (id interface : TypeId) :
    p.implements id interface =
      if id = interface then p.isInterface interface
      else p.satisfies (p.methodSet id) interface :=
  rfl

theorem pointerImplements_def (named interface : TypeId) :
    p.pointerImplements named interface = p.satisfies (p.promotedMethods named true) interface :=
  rfl

end Plain

end Program

end LeastContext

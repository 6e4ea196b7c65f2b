import LeastContext.Proofs.Comparison

namespace LeastContext.Program

variable {p : Program} {a b : TypeId}

theorem identical_self (a : TypeId) : p.identical a a = true := by
  simp [identical_def, identical?, identicalWithin_next]

/-- Some method of a list is what an interface wants. -/
def Provides (p : Program) (methods : List Method) (wanted : Method) : Prop :=
  ∃ method ∈ methods, method.key = wanted.key ∧
    p.identical method.signature wanted.signature = true

theorem satisfies_iff {methods : List Method} {interface : TypeId} :
    p.satisfies methods interface = true ↔ p.isInterface interface = true ∧
      ∀ wanted ∈ p.interfaceMethods interface, p.Provides methods wanted := by
  simp [satisfies_def, Provides]

theorem methodSet_of_isInterface (h : p.isInterface a = true) :
    p.methodSet a = p.interfaceMethods a := by
  simp [methodSet_def, h]

/-- Being the interface itself is no exception: what satisfies an interface provides all methods of
it, whichever way it is found out. -/
theorem implements_iff : p.implements a b = true ↔ p.isInterface b = true ∧
    ∀ wanted ∈ p.interfaceMethods b, p.Provides (p.methodSet a) wanted := by
  rw [implements_def]
  split
  · rename_i he
    subst he
    constructor
    · intro hinterface
      refine ⟨hinterface, ?_⟩
      intro wanted hwanted
      rw [← methodSet_of_isInterface hinterface] at hwanted
      exact ⟨wanted, hwanted, rfl, identical_self _⟩
    · intro h
      exact h.1
  · exact satisfies_iff

end LeastContext.Program

import LeastContext.Program.Basic
import LeastContext.Proofs.Chain

namespace LeastContext.Program

variable {p : Program} {a b c : TypeId}

theorem mem_typeIds : a ∈ p.typeIds ↔ a.index < p.types.size := by
  constructor
  · intro h
    obtain ⟨i, hi, rfl⟩ := List.mem_map.mp h
    exact List.mem_range.mp hi
  · intro h
    exact List.mem_map.mpr ⟨a.index, List.mem_range.mpr h, rfl⟩

theorem form_outside (h : ¬ a.index < p.types.size) : p.form a = .basic "" := by
  simp [form_def, Array.getD, h]

theorem inside_of_named (h : (p.form a).isNamed = true) : a.index < p.types.size := by
  by_contra hn
  rw [form_outside hn] at h
  cases h

/-- The type that a type name is declared as. -/
def declaredAs (p : Program) (id : TypeId) : Option TypeId :=
  (p.named? id).map (·.underlying)

/-- A type is defined by the unnamed type that its chain of names leads to. -/
def DefinedBy (p : Program) (a b : TypeId) : Prop :=
  ∃ names, Chain p.declaredAs a names b

theorem declaredAs_some {decl : NamedType} (h : p.form a = .named decl) :
    p.declaredAs a = some decl.underlying := by
  simp [declaredAs, named?_def, h]

theorem named?_eq_some {decl : NamedType} : p.named? a = some decl ↔ p.form a = .named decl := by
  cases hf : p.form a <;> simp [named?_def, hf]

theorem declaredAs_eq_some :
    p.declaredAs a = some b ↔ ∃ decl, p.form a = .named decl ∧ decl.underlying = b := by
  simp only [declaredAs, Option.map_eq_some_iff, named?_eq_some]

theorem declaredAs_none : p.declaredAs a = none ↔ (p.form a).isNamed = false := by
  cases hf : p.form a <;> simp [declaredAs, named?_def, hf, TypeForm.isNamed]

theorem inside_of_declaredAs (h : p.declaredAs a = some b) : a.index < p.types.size := by
  apply inside_of_named
  cases hn : (p.form a).isNamed with
  | true => rfl
  | false => simp [declaredAs_none.mpr hn] at h

theorem definition_length_le {names : List TypeId} (h : Chain p.declaredAs a names b) :
    names.length ≤ p.types.size := by
  have := h.length_le p.typeIds (fun x y hs => mem_typeIds.mpr (inside_of_declaredAs hs))
  simpa [typeIds] using this

theorem underlyingWithin_eq {names : List TypeId} (h : Chain p.declaredAs a names b) {steps : Nat}
    (hs : names.length ≤ steps) : p.underlyingWithin steps a = b := by
  induction h generalizing steps with
  | stop last =>
    cases steps with
    | zero => rfl
    | succ steps =>
      rw [underlyingWithin_succ]
      split
      · rename_i decl hf
        simp [declaredAs_some hf] at last
      · rfl
  | @link a _ _ _ step rest ih =>
    cases steps with
    | zero => simp at hs
    | succ steps =>
      have hne := (Chain.link step rest).next_ne_self
      rw [underlyingWithin_succ]
      split
      · rename_i decl hf
        rw [declaredAs_some hf] at step hne
        obtain rfl := Option.some.inj step
        rw [if_neg (fun he => hne (congrArg some he))]
        exact ih (by simpa using hs)
      · rename_i hn
        cases hf : p.form a with
        | named decl => exact absurd hf (hn decl)
        | _ => simp [declaredAs, named?_def, hf] at step

theorem underlyingWithin_definedBy {steps : Nat}
    (h : (p.form (p.underlyingWithin steps a)).isNamed = false) :
    p.DefinedBy a (p.underlyingWithin steps a) := by
  induction steps generalizing a with
  | zero => exact ⟨[], .stop (declaredAs_none.mpr h)⟩
  | succ steps ih =>
    rw [underlyingWithin_succ] at h ⊢
    split at h
    · rename_i decl hf
      split at h
      · rw [hf] at h
        cases h
      · rename_i hne
        obtain ⟨names, hd⟩ := ih h
        rw [if_neg hne]
        exact ⟨a :: names, .link (declaredAs_some hf) hd⟩
    · exact ⟨[], .stop (declaredAs_none.mpr h)⟩

namespace DefinedBy

theorem underlying_eq (h : p.DefinedBy a b) : p.underlying a = b := by
  obtain ⟨names, hd⟩ := h
  exact underlyingWithin_eq hd (Nat.le_succ_of_le (definition_length_le hd))

theorem plain (h : p.DefinedBy a b) : (p.form b).isNamed = false := by
  obtain ⟨names, hd⟩ := h
  exact declaredAs_none.mp hd.end_stops

theorem inside (h : p.DefinedBy a b) (hb : b.index < p.types.size) : a.index < p.types.size := by
  obtain ⟨names, hd⟩ := h
  cases hd with
  | stop _ => exact hb
  | link step _ => exact inside_of_declaredAs step

theorem unique (h : p.DefinedBy a b) (h' : p.DefinedBy a c) : b = c :=
  h.underlying_eq.symm.trans h'.underlying_eq

/-- An unnamed type is defined by itself. -/
theorem eq_of_plain (h : p.DefinedBy a b) (plain : (p.form a).isNamed = false) : b = a :=
  h.unique ⟨[], .stop (declaredAs_none.mpr plain)⟩

end DefinedBy

/-- The underlying type is unnamed exactly if the names of the type end somewhere. -/
theorem underlying_plain :
    (p.form (p.underlying a)).isNamed = false ↔ ∃ b, p.DefinedBy a b := by
  constructor
  · intro h
    exact ⟨_, underlyingWithin_definedBy h⟩
  · intro hdefined
    obtain ⟨b, hd⟩ := hdefined
    rw [hd.underlying_eq]
    exact hd.plain

/-- An unnamed form is that of the underlying type exactly if the names lead to it. -/
theorem underlying_form {form : TypeForm} (plain : form.isNamed = false) :
    p.form (p.underlying a) = form ↔ ∃ b, p.DefinedBy a b ∧ p.form b = form := by
  constructor
  · rintro rfl
    exact ⟨_, underlyingWithin_definedBy plain, rfl⟩
  · intro h
    obtain ⟨b, hd, rfl⟩ := h
    rw [hd.underlying_eq]

theorem interface?_eq_some {body : Interface} :
    p.interface? a = some body ↔ ∃ b, p.DefinedBy a b ∧ p.form b = .interface body := by
  rw [← underlying_form rfl, interface?_def]
  split
  · rename_i found hf
    rw [hf, Option.some.injEq, TypeForm.interface.injEq]
  · rename_i hn
    constructor
    · intro h
      cases h
    · intro h
      exact absurd h (hn body)

end LeastContext.Program

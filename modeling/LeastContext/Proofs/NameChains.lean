import LeastContext.Proofs.WellFormed

namespace LeastContext.Program

variable {p : Program} {id a b : TypeId}

/-- What the search for the type behind a name comes to. It never leaves the table, however far it
has gone. Its answer is unnamed exactly if the chain of declarations comes to an unnamed type, and
is then the first such type on the chain and its own answer. It is a name exactly if the chain
loops. -/
structure FindsDefinition (p : Program) (id : TypeId) : Prop where
  inside : ∀ steps, (p.underlyingWithin steps id).index < p.types.size
  plain_iff : (p.form (p.underlying id)).isNamed = false ↔
    ∃ n b, Chain.place p.declaredAs n id = some b ∧ (p.form b).isNamed = false
  first : (p.form (p.underlying id)).isNamed = false →
    ∃ n < p.types.size, Chain.place p.declaredAs n id = some (p.underlying id) ∧
      ∀ m < n, ∃ c, Chain.place p.declaredAs m id = some c ∧ (p.form c).isNamed = true
  idempotent : (p.form (p.underlying id)).isNamed = false →
    p.underlying (p.underlying id) = p.underlying id
  named_iff : (p.form (p.underlying id)).isNamed = true ↔ Chain.Loops p.declaredAs id
  /-- One link less than there are types is bound enough. -/
  enough : (p.form (p.underlying id)).isNamed = false →
    ∀ steps, p.types.size ≤ steps + 1 → p.underlyingWithin steps id = p.underlying id

theorem underlying_plain_iff_place : (p.form (p.underlying id)).isNamed = false ↔
    ∃ n b, Chain.place p.declaredAs n id = some b ∧ (p.form b).isNamed = false := by
  rw [underlying_plain]
  constructor
  · intro hdefined
    obtain ⟨b, names, chain⟩ := hdefined
    exact ⟨names.length, b, chain.place_end, declaredAs_none.mp chain.end_stops⟩
  · intro hreached
    obtain ⟨n, b, hplace, hplain⟩ := hreached
    obtain ⟨names, chain⟩ := Chain.of_place hplace (declaredAs_none.mpr hplain)
    exact ⟨b, names, chain⟩

theorem named_before_end {names : List TypeId} (h : Chain p.declaredAs a names b) {m : Nat}
    (hm : m < names.length) :
    ∃ c, Chain.place p.declaredAs m a = some c ∧ (p.form c).isNamed = true := by
  refine ⟨names[m], ?_, ?_⟩
  · rw [h.place_eq, List.getElem?_append_left hm, List.getElem?_eq_getElem hm]
  · obtain ⟨d, hd⟩ := h.mem_next (List.getElem_mem hm)
    by_contra hplain
    rw [declaredAs_none.mpr (Bool.eq_false_iff.mpr hplain)] at hd
    cases hd

section Resolved

variable (resolved : ∀ decl, .named decl ∈ p.types → decl.underlying.index < p.types.size)
include resolved

theorem declaredAs_mem (a b : TypeId) (ha : a ∈ p.typeIds) (h : p.declaredAs a = some b) :
    b ∈ p.typeIds := by
  obtain ⟨decl, hform, rfl⟩ := declaredAs_eq_some.mp h
  exact mem_typeIds.mpr (resolved decl (mem_types.mpr ⟨a, mem_typeIds.mp ha, hform⟩))

theorem underlyingWithin_mem (hid : id ∈ p.typeIds) (steps : Nat) :
    p.underlyingWithin steps id ∈ p.typeIds := by
  induction steps generalizing id with
  | zero => exact hid
  | succ steps ih =>
    rw [underlyingWithin_succ]
    split
    · rename_i decl hform
      split
      · exact hid
      · exact ih (declaredAs_mem resolved id _ hid (declaredAs_some hform))
    · exact hid

/-- The end of a chain is a type as well, so there are fewer names on it than types. -/
theorem definition_length_lt {names : List TypeId} (h : Chain p.declaredAs a names b)
    (ha : a ∈ p.typeIds) : names.length < p.types.size := by
  simpa [typeIds] using h.length_lt (declaredAs_mem resolved) ha

theorem underlying_named (hid : id ∈ p.typeIds) :
    (p.form (p.underlying id)).isNamed = true ↔ Chain.Loops p.declaredAs id := by
  constructor
  · intro hnamed
    rcases Chain.ends_or_loops (declaredAs_mem resolved) hid with hends | hloops
    · obtain ⟨names, b, chain⟩ := hends
      rw [underlying_plain.mpr ⟨b, names, chain⟩] at hnamed
      cases hnamed
    · exact hloops
  · intro hloops
    by_contra hplain
    obtain ⟨b, names, chain⟩ := underlying_plain.mp (Bool.eq_false_iff.mpr hplain)
    exact chain.not_loops hloops

end Resolved

theorem underlying_bound_is_enough (p : Program) (id : TypeId)
    (resolved : ∀ decl, .named decl ∈ p.types → decl.underlying.index < p.types.size)
    (hid : id.index < p.types.size) : p.FindsDefinition id := by
  have hid : id ∈ p.typeIds := mem_typeIds.mpr hid
  refine ⟨?_, underlying_plain_iff_place, ?_, ?_, underlying_named resolved hid, ?_⟩
  · intro steps
    exact mem_typeIds.mp (underlyingWithin_mem resolved hid steps)
  · intro hplain
    obtain ⟨names, chain⟩ := underlyingWithin_definedBy hplain
    refine ⟨names.length, definition_length_lt resolved chain hid, chain.place_end, ?_⟩
    intro m hm
    exact named_before_end chain hm
  · intro hplain
    exact DefinedBy.underlying_eq ⟨[], .stop (declaredAs_none.mpr hplain)⟩
  · intro hplain steps hsteps
    obtain ⟨names, chain⟩ := underlyingWithin_definedBy hplain
    have hlength := definition_length_lt resolved chain hid
    exact underlyingWithin_eq chain (by omega)

/-- So many type names, each declared as the next one and the last as an unnamed type: a chain
through the whole table. -/
def ladder (n : Nat) : Program where
  package := ⟨0⟩
  packages := #[⟨"app", "app"⟩]
  types := ((List.range n).map fun i => .named ⟨"Rung", some ⟨0⟩, ⟨i + 1⟩, []⟩).toArray.push
    (.basic "int")
  objects := #[]
  files := []

section Ladder

variable {i n steps : Nat}

theorem ladder_size : (ladder n).types.size = n + 1 := by
  simp [ladder]

theorem ladder_rung (h : i < n) :
    (ladder n).form ⟨i⟩ = .named ⟨"Rung", some ⟨0⟩, ⟨i + 1⟩, []⟩ := by
  simp [ladder, form_def, Array.getD, h, Nat.lt_succ_of_lt h]

theorem ladder_ground : (ladder n).form ⟨n⟩ = .basic "int" := by
  simp [ladder, form_def, Array.getD]

theorem ladder_resolved (decl : NamedType) (h : .named decl ∈ (ladder n).types) :
    decl.underlying.index < (ladder n).types.size := by
  obtain ⟨⟨i⟩, hi, hform⟩ := mem_types.mp h
  rw [ladder_size] at hi ⊢
  rcases Nat.lt_succ_iff_lt_or_eq.mp hi with hlt | heq
  · rw [ladder_rung hlt] at hform
    cases hform
    exact Nat.succ_lt_succ hlt
  · obtain rfl := heq
    rw [ladder_ground] at hform
    cases hform

theorem ladder_descent (h : i + steps ≤ n) :
    (ladder n).underlyingWithin steps ⟨i⟩ = ⟨i + steps⟩ := by
  induction steps generalizing i with
  | zero => rfl
  | succ steps ih =>
    rw [underlyingWithin_succ, ladder_rung (by omega)]
    simp only [TypeId.mk.injEq, Nat.succ_ne_self, if_false]
    rw [ih (by omega), Nat.add_right_comm, Nat.add_assoc]

theorem ladder_underlying : (ladder n).underlying ⟨0⟩ = ⟨n⟩ := by
  have hreach : (ladder n).underlyingWithin n ⟨0⟩ = ⟨n⟩ := by
    rw [ladder_descent (by omega), Nat.zero_add]
  have hdefined : (ladder n).DefinedBy ⟨0⟩ ((ladder n).underlyingWithin n ⟨0⟩) := by
    apply underlyingWithin_definedBy
    rw [hreach, ladder_ground]
    rfl
  rw [hdefined.underlying_eq, hreach]

/-- Two links less than there are types are too few: a chain through the whole table is then cut
off before its end. -/
theorem ladder_falls_short (steps : Nat) : (ladder (steps + 1)).types.size = steps + 2 ∧
    (ladder (steps + 1)).underlyingWithin steps ⟨0⟩ ≠ (ladder (steps + 1)).underlying ⟨0⟩ := by
  refine ⟨ladder_size, ?_⟩
  rw [ladder_descent (by omega), ladder_underlying, Nat.zero_add]
  simp

end Ladder

/-- A name whose declarations lead into a ring of two others, and a name declared as itself. -/
def rings : Program where
  package := ⟨0⟩
  packages := #[⟨"app", "app"⟩]
  types := #[
    .named ⟨"Entry", some ⟨0⟩, ⟨1⟩, []⟩,
    .named ⟨"This", some ⟨0⟩, ⟨2⟩, []⟩,
    .named ⟨"That", some ⟨0⟩, ⟨1⟩, []⟩,
    .named ⟨"Self", some ⟨0⟩, ⟨3⟩, []⟩]
  objects := #[]
  files := []

/-- A chain through all seven types of its table is followed to its end. Where a chain loops the
answer is a name, which need not be its own answer. -/
theorem ladder_and_rings_searched :
    ((∀ decl, .named decl ∈ (ladder 6).types → decl.underlying.index < (ladder 6).types.size) ∧
      (ladder 6).underlying ⟨0⟩ = ⟨6⟩ ∧ (ladder 6).FindsDefinition ⟨0⟩) ∧
    ((∀ decl, .named decl ∈ rings.types → decl.underlying.index < rings.types.size) ∧
      Chain.Loops rings.declaredAs ⟨0⟩ ∧ rings.FindsDefinition ⟨0⟩ ∧
      Chain.Loops rings.declaredAs ⟨3⟩ ∧ rings.FindsDefinition ⟨3⟩ ∧
      rings.underlying ⟨1⟩ = ⟨2⟩ ∧ rings.underlying ⟨2⟩ = ⟨1⟩) := by
  have resolved : ∀ decl, .named decl ∈ rings.types →
      decl.underlying.index < rings.types.size := by
    intro decl h
    simp only [rings, List.mem_toArray, List.mem_cons, TypeForm.named.injEq, List.not_mem_nil,
      or_false] at h
    rcases h with rfl | rfl | rfl | rfl <;> decide
  refine ⟨⟨ladder_resolved, ladder_underlying, ?_⟩,
    resolved, ⟨1, 3, ⟨1⟩, by decide⟩, ?_, ⟨0, 1, ⟨3⟩, by decide⟩, ?_, by decide⟩
  · exact underlying_bound_is_enough (ladder 6) ⟨0⟩ ladder_resolved (by decide)
  · exact underlying_bound_is_enough rings ⟨0⟩ resolved (by decide)
  · exact underlying_bound_is_enough rings ⟨3⟩ resolved (by decide)

end LeastContext.Program

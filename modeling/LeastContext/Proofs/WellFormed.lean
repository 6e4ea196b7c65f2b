import LeastContext.Program.Defect
import LeastContext.Proofs.CycleSearch
import LeastContext.Proofs.SyntaxParts
import LeastContext.Proofs.Underlying

namespace LeastContext

/-- A type that an unnamed type is made of; a named type is opaque. -/
inductive TypeForm.Part : TypeForm → TypeId → Prop where
  | pointerElem {elem} : Part (.pointer elem) elem
  | sliceElem {elem} : Part (.slice elem) elem
  | arrayElem {length elem} : Part (.array length elem) elem
  | mapKey {key value} : Part (.map key value) key
  | mapValue {key value} : Part (.map key value) value
  | param {sig : Signature} {param} : param ∈ sig.params → Part (.signature sig) param.type
  | result {sig : Signature} {type} : type ∈ sig.results → Part (.signature sig) type
  | field {fields : List StructField} {field} : field ∈ fields → Part (.struct fields) field.type
  | method {body : Interface} {method} :
      method ∈ body.methods → Part (.interface body) method.signature
  | embed {body : Interface} {type} : type ∈ body.embeds → Part (.interface body) type

/-- A handle that occurs in a type. -/
inductive TypeForm.Mentions : TypeForm → Reference → Prop where
  | part {form : TypeForm} {type} : form.Part type → Mentions form (.type type)
  | underlying {decl : NamedType} : Mentions (.named decl) (.type decl.underlying)
  | namePackage {decl : NamedType} {package} :
      decl.package = some package → Mentions (.named decl) (.package package)
  | declaredMethod {decl : NamedType} {method} :
      method ∈ decl.methods → Mentions (.named decl) (.object method.func)
  | paramObject {sig : Signature} {param object} :
      param ∈ sig.params → param.object = some object → Mentions (.signature sig) (.object object)
  | methodPackage {body : Interface} {method package} :
      method ∈ body.methods → method.package = some package →
        Mentions (.interface body) (.package package)

inductive Object.Mentions : Object → Reference → Prop where
  | package {object : Object} {package} :
      object.package = some package → Mentions object (.package package)
  | type {object : Object} {type} : object.type = some type → Mentions object (.type type)
  | receiver {object : Object} {type} : object.kind = .method type → Mentions object (.type type)

/-- A handle that a syntax tree holds itself: the object an identifier is bound to, the type of an
expression. -/
inductive Node.Mentions : Node → Reference → Prop where
  | binding {name : Ident} {binding} :
      name.binding = some binding → Mentions (.ident name) (.object binding.object)
  | exprType {e : Expr} {type} : e.type = some type → Mentions (.expr e) (.type type)

namespace Program

/-- A syntax tree that occurs in a file of a program, at any depth. -/
def Contains (p : Program) (node : Node) : Prop :=
  ∃ file ∈ p.files, Relation.ReflTransGen Node.Part (.file file) node

/-- A handle that occurs anywhere in a program. -/
inductive Mentions (p : Program) : Reference → Prop where
  | analyzed : Mentions p (.package p.package)
  | type {form : TypeForm} {r} : form ∈ p.types → form.Mentions r → Mentions p r
  | object {object : Object} {r} : object ∈ p.objects → object.Mentions r → Mentions p r
  | node {node : Node} {r} : p.Contains node → node.Mentions r → Mentions p r

/-- The interface that a type stands for embeds another type. -/
def Embeds (p : Program) (a b : TypeId) : Prop :=
  ∃ c body, p.DefinedBy a c ∧ p.form c = .interface body ∧ b ∈ body.embeds

/-- Every handle resolves, every type name stands for an unnamed type, and neither the parts of
types nor the embeds of interfaces go round. -/
structure WellFormed (p : Program) : Prop where
  resolved : ∀ r, p.Mentions r → p.resolves r = true
  founded : ∀ id, (p.form id).isNamed = true → ∃ b, p.DefinedBy id b
  parts_acyclic : ∀ id, ¬ Relation.TransGen (fun a b => (p.form a).Part b) id id
  embeds_acyclic : ∀ id, ¬ Relation.TransGen p.Embeds id id

end Program

theorem TypeForm.mem_parts {form : TypeForm} {type : TypeId} :
    type ∈ form.parts ↔ form.Part type := by
  constructor
  · intro h
    cases form <;> simp [parts] at h
    all_goals grind [TypeForm.Part]
  · intro h
    cases h <;> simp [parts]
    case param h => exact .inl ⟨_, h, rfl⟩
    case result h => exact .inr h
    case field h => exact ⟨_, h, rfl⟩
    case method h => exact .inl ⟨_, h, rfl⟩
    case embed h => exact .inr h

theorem TypeForm.mem_references {form : TypeForm} {r : Reference} :
    r ∈ form.references ↔ form.Mentions r := by
  constructor
  · intro h
    cases form <;> simp [references] at h
    all_goals grind [TypeForm.Part, TypeForm.Mentions]
  · intro h
    cases h with
    | part h => cases h <;> simp [references] <;> grind
    | _ => simp [references] <;> grind

theorem Object.mem_references {object : Object} {r : Reference} :
    r ∈ object.references ↔ object.Mentions r := by
  constructor
  · intro h
    cases hk : object.kind <;> simp [references, ObjectKind.references, hk] at h
    all_goals grind [Object.Mentions]
  · intro h
    cases h <;> simp_all [references, ObjectKind.references]

theorem Node.mem_references {node : Node} {r : Reference} :
    (∃ referrer, (referrer, r) ∈ node.references) ↔ node.Mentions r := by
  constructor
  · intro hmem
    obtain ⟨referrer, h⟩ := hmem
    cases node <;> simp [references, Ident.object?] at h
    all_goals grind [Node.Mentions]
  · intro h
    cases h <;> simp_all [references, Ident.object?]

namespace Program

variable {p : Program}

theorem mem_types {form : TypeForm} :
    form ∈ p.types ↔ ∃ id, id.index < p.types.size ∧ p.form id = form := by
  constructor
  · intro h
    obtain ⟨i, hi, rfl⟩ := Array.mem_iff_getElem.mp h
    exact ⟨⟨i⟩, hi, by simp [Program.form_def, Array.getD, hi]⟩
  · intro hinside
    obtain ⟨id, hi, rfl⟩ := hinside
    simp [Program.form_def, Array.getD, hi]

/-- The list of references holds what occurs in the tables and the trees. -/
theorem mem_references {r : Reference} (hr : r ≠ .package p.package) :
    (∃ referrer, (referrer, r) ∈ p.references) ↔ p.Mentions r := by
  constructor
  · intro hmem
    obtain ⟨referrer, h⟩ := hmem
    rcases List.mem_append.mp h with h | h
    · rcases List.mem_append.mp h with h | h
      · obtain ⟨id, hid, hm⟩ := List.mem_flatMap.mp h
        obtain ⟨r', hr', he⟩ := List.mem_map.mp hm
        cases he
        exact .type (mem_types.mpr ⟨id, mem_typeIds.mp hid, rfl⟩) (TypeForm.mem_references.mp hr')
      · obtain ⟨object, ho, hm⟩ := List.mem_flatMap.mp h
        obtain ⟨r', hr', he⟩ := List.mem_map.mp hm
        cases he
        exact .object (Array.mem_def.mpr ho) (Object.mem_references.mp hr')
    · obtain ⟨file, hf, hm⟩ := List.mem_flatMap.mp h
      obtain ⟨node, hn, hm⟩ := List.mem_flatMap.mp hm
      exact .node ⟨file, hf, Node.mem_all.mp hn⟩ (Node.mem_references.mp ⟨referrer, hm⟩)
  · intro h
    cases h with
    | analyzed => exact absurd rfl hr
    | type hf hm =>
      obtain ⟨id, hid, rfl⟩ := mem_types.mp hf
      refine ⟨.type id, List.mem_append_left _ (List.mem_append_left _ ?_)⟩
      exact List.mem_flatMap.mpr ⟨id, mem_typeIds.mpr hid,
        List.mem_map.mpr ⟨r, TypeForm.mem_references.mpr hm, rfl⟩⟩
    | @object object _ ho hm =>
      refine ⟨.object object.name, List.mem_append_left _ (List.mem_append_right _ ?_)⟩
      exact List.mem_flatMap.mpr ⟨object, Array.mem_def.mp ho,
        List.mem_map.mpr ⟨r, Object.mem_references.mpr hm, rfl⟩⟩
    | node hc hm =>
      obtain ⟨file, hf, hp⟩ := hc
      obtain ⟨referrer, hm⟩ := Node.mem_references.mpr hm
      refine ⟨referrer, List.mem_append_right _ ?_⟩
      exact List.mem_flatMap.mpr ⟨file, hf, List.mem_flatMap.mpr ⟨_, Node.mem_all.mpr hp, hm⟩⟩

theorem dangling?_eq_none (hp : p.package.index < p.packages.size) :
    p.dangling? = none ↔ ∀ r, p.Mentions r → p.resolves r = true := by
  rw [dangling?, Option.map_eq_none_iff, List.find?_eq_none]
  constructor
  · intro h r hm
    by_cases hr : r = .package p.package
    · simpa [hr, resolves] using hp
    · obtain ⟨referrer, hm⟩ := (mem_references hr).mpr hm
      simpa using h _ hm
  · rintro h ⟨referrer, r⟩ hm
    by_cases hr : r = .package p.package
    · simpa [hr, resolves] using hp
    · simpa using h r ((mem_references hr).mp ⟨referrer, hm⟩)

theorem unfounded?_eq_none :
    p.unfounded? = none ↔ ∀ id, (p.form id).isNamed = true → ∃ b, p.DefinedBy id b := by
  rw [unfounded?, Option.map_eq_none_iff, List.find?_eq_none]
  constructor
  · intro h id hn
    have hu := h id (mem_typeIds.mpr (inside_of_named hn))
    simp only [hn, Bool.true_and, Bool.not_eq_true] at hu
    exact underlying_plain.mp hu
  · intro h id _
    cases hn : (p.form id).isNamed with
    | false => simp
    | true =>
      rw [underlying_plain.mpr (h id hn)]
      simp

theorem mem_embeds {a b : TypeId} : b ∈ p.embeds a ↔ p.Embeds a b := by
  constructor
  · intro h
    rw [embeds_def] at h
    split at h
    · rename_i body hi
      obtain ⟨c, hd, hf⟩ := interface?_eq_some.mp hi
      exact ⟨c, body, hd, hf, h⟩
    · cases h
  · intro hembeds
    obtain ⟨c, body, hd, hf, hb⟩ := hembeds
    rw [embeds_def, interface?_eq_some.mpr ⟨c, hd, hf⟩]
    exact hb

theorem Embeds.of_body {a b : TypeId} {body : Interface} (h : p.interface? a = some body)
    (hb : b ∈ body.embeds) : p.Embeds a b := by
  obtain ⟨c, hd, hf⟩ := interface?_eq_some.mp h
  exact ⟨c, body, hd, hf, hb⟩

theorem inside_of_interface {id : TypeId} {body : Interface} (h : p.form id = .interface body) :
    id.index < p.types.size := by
  by_contra hn
  rw [form_outside hn] at h
  cases h

section Resolved

variable (resolved : ∀ r, p.Mentions r → p.resolves r = true)
include resolved

theorem part_inside {a b : TypeId} (h : (p.form a).Part b) : b.index < p.types.size := by
  by_cases ha : a.index < p.types.size
  · simpa [resolves] using
      resolved (.type b) (.type (mem_types.mpr ⟨a, ha, rfl⟩) (.part h))
  · rw [form_outside ha] at h
    cases h

theorem embeds_inside {a b : TypeId} (h : p.Embeds a b) : b.index < p.types.size := by
  obtain ⟨c, body, _, hf, hb⟩ := h
  apply part_inside resolved (a := c)
  rw [hf]
  exact .embed hb

theorem parts_search :
    Digraph.findCycle p.typeIds (fun id => (p.form id).parts) = none ↔
      ∀ id, ¬ Relation.TransGen (fun a b => (p.form a).Part b) id id := by
  have edge : Digraph.Edge (fun id => (p.form id).parts) = fun a b => (p.form a).Part b := by
    funext a b
    exact propext TypeForm.mem_parts
  rw [Digraph.findCycle_eq_none, edge]
  · intro a _ b hb
    exact mem_typeIds.mpr (part_inside resolved (TypeForm.mem_parts.mp hb))
  · intro a ha
    rw [form_outside (fun h => ha (mem_typeIds.mpr h))]
    rfl

theorem embeds_search :
    Digraph.findCycle p.typeIds p.embeds = none ↔
      ∀ id, ¬ Relation.TransGen p.Embeds id id := by
  have edge : Digraph.Edge p.embeds = p.Embeds := by
    funext a b
    exact propext mem_embeds
  rw [Digraph.findCycle_eq_none, edge]
  · intro a _ b hb
    exact mem_typeIds.mpr (embeds_inside resolved (mem_embeds.mp hb))
  · intro a ha
    apply List.eq_nil_iff_forall_not_mem.mpr
    intro b hb
    obtain ⟨c, body, hd, hf, _⟩ := mem_embeds.mp hb
    exact ha (mem_typeIds.mpr (hd.inside (inside_of_interface hf)))

end Resolved

theorem defect?_none_iff : p.defect? = none ↔
    p.package.index < p.packages.size ∧ p.dangling? = none ∧ p.unfounded? = none ∧
      Digraph.findCycle p.typeIds (fun id => (p.form id).parts) = none ∧
      Digraph.findCycle p.typeIds p.embeds = none := by
  unfold defect?
  by_cases hp : p.package.index < p.packages.size <;>
    simp [hp, Option.or_eq_none_iff]

theorem WellFormed.of_defect? (h : p.defect? = none) : p.WellFormed := by
  obtain ⟨hp, hdangling, hunfounded, hparts, hembeds⟩ := defect?_none_iff.mp h
  have resolved := (dangling?_eq_none hp).mp hdangling
  exact ⟨resolved, unfounded?_eq_none.mp hunfounded, (parts_search resolved).mp hparts,
    (embeds_search resolved).mp hembeds⟩

theorem WellFormed.defect? (wf : p.WellFormed) : p.defect? = none := by
  have hp : p.package.index < p.packages.size := by
    simpa [resolves] using wf.resolved _ .analyzed
  exact defect?_none_iff.mpr ⟨hp, (dangling?_eq_none hp).mpr wf.resolved,
    unfounded?_eq_none.mpr wf.founded, (parts_search wf.resolved).mpr wf.parts_acyclic,
    (embeds_search wf.resolved).mpr wf.embeds_acyclic⟩

/-- Validation is exact: a program has no defect if and only if it is well-formed. -/
theorem no_defect_iff_wellFormed (p : Program) : p.defect? = none ↔ p.WellFormed :=
  ⟨WellFormed.of_defect?, WellFormed.defect?⟩

end Program

end LeastContext

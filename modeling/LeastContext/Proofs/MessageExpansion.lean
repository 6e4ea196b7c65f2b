import LeastContext.Proofs.Flattening

namespace LeastContext.Program

variable {p : Program} {home : Option PackageId} {id x : TypeId} {entry : Nameable}

/-- What is written of a type itself: a type that is no interface or that the package can name by
its name, and any other interface by its own methods, if it has some. -/
inductive WrittenAs (p : Program) (home : Option PackageId) : TypeId → Nameable → Prop where
  | plain {x : TypeId} : p.interface? x = none → WrittenAs p home x (.type x)
  | name {x : TypeId} : p.isInterface x = true → p.isNameable home x = true →
      WrittenAs p home x (.type x)
  | methods {x : TypeId} {body : Interface} : p.interface? x = some body →
      p.isNameable home x = false → body.methods ≠ [] → WrittenAs p home x (.methods x)

/-- The method keys that an entry of a message stands for. -/
def writtenKeys (p : Program) : Nameable → List MethodKey
  | .type x => (p.interfaceMethods x).map Method.key
  | .methods x => (p.writtenMethods x).map Method.key

theorem isNameable_iff : p.isNameable home x = true ↔
    ∃ decl, p.named? x = some decl ∧ (decl.isExported = true ∨ decl.package = home) := by
  cases hn : p.named? x <;> simp [isNameable_def, hn]

theorem isNameable_eq_false : p.isNameable home x = false ↔
    ∀ decl, p.named? x = some decl → decl.isExported = false ∧ decl.package ≠ home := by
  cases hn : p.named? x <;> simp [isNameable_def, hn]

theorem writtenAs_type (h : p.WrittenAs home id (.type x)) : p.interface? x = none ∨
    ∃ decl, p.named? x = some decl ∧ (decl.isExported = true ∨ decl.package = home) := by
  cases h with
  | plain hnone => exact .inl hnone
  | name _ hname => exact .inr (isNameable_iff.mp hname)

theorem writtenAs_methods (h : p.WrittenAs home id (.methods x)) :
    ∃ body, p.interface? x = some body ∧ body.methods ≠ [] ∧
      ∀ decl, p.named? x = some decl → decl.isExported = false ∧ decl.package ≠ home := by
  cases h with
  | methods hbody hname hmethods =>
    exact ⟨_, hbody, hmethods, isNameable_eq_false.mp hname⟩

/-- A name stands for nothing that is not below it. -/
theorem WrittenAs.key_declared (wf : p.WellFormed) {key : MethodKey}
    (h : p.WrittenAs home x entry) (hkey : key ∈ p.writtenKeys entry) :
    ∃ e method, Relation.ReflTransGen p.Embeds x e ∧ p.Declares e method ∧ method.key = key := by
  cases h with
  | plain _ => exact (key_mem_interfaceMethods wf).mp hkey
  | name _ _ => exact (key_mem_interfaceMethods wf).mp hkey
  | methods _ _ _ =>
    obtain ⟨method, hmethod, rfl⟩ := List.mem_map.mp hkey
    exact ⟨x, method, .refl, mem_writtenMethods.mp hmethod, rfl⟩

/-- An interface that declares a method is written as something that stands for it. -/
theorem Declares.exists_writtenAs (wf : p.WellFormed) {method : Method}
    (h : p.Declares x method) :
    ∃ entry, p.WrittenAs home x entry ∧ method.key ∈ p.writtenKeys entry := by
  have ⟨body, hbody, written, hwritten, _⟩ := h
  cases hname : p.isNameable home x with
  | true =>
    refine ⟨.type x, .name (isInterface_iff.mpr ⟨body, hbody⟩) hname, ?_⟩
    exact (key_mem_interfaceMethods wf).mpr ⟨x, method, .refl, h, rfl⟩
  | false =>
    refine ⟨.methods x, .methods hbody hname (List.ne_nil_of_mem hwritten), ?_⟩
    exact List.mem_map_of_mem (mem_writtenMethods.mpr h)

section Depth

variable {depth : Nat}

theorem expandWithin_of_nameable (h : p.isNameable home id = true) :
    p.expandWithin home (depth + 1) id = [.type id] := by
  rw [expandWithin_succ]
  split
  · rfl
  · rw [if_pos h]

/-- One step of an expansion: what is written of a type itself, and if the package cannot name it
what its embeds expand to. -/
theorem mem_expandWithin_succ : entry ∈ p.expandWithin home (depth + 1) id ↔
    p.WrittenAs home id entry ∨ p.isNameable home id = false ∧
      ∃ e ∈ p.embeds id, entry ∈ p.expandWithin home depth e := by
  cases hbody : p.interface? id with
  | none =>
    rw [expandWithin_succ, hbody, embeds_of_none hbody, List.mem_singleton]
    constructor
    · intro h
      exact .inl (h ▸ .plain hbody)
    · intro h
      rcases h with h | ⟨_, e, he, _⟩
      · cases h with
        | plain _ => rfl
        | name _ _ => rfl
        | methods hsome _ _ => cases hbody.symm.trans hsome
      · cases he
  | some body =>
    have hinterface : p.isInterface id = true := isInterface_iff.mpr ⟨body, hbody⟩
    cases hname : p.isNameable home id with
    | true =>
      rw [expandWithin_of_nameable hname, List.mem_singleton]
      constructor
      · intro h
        exact .inl (h ▸ .name hinterface hname)
      · intro h
        rcases h with h | ⟨hfalse, _⟩
        · cases h with
          | plain _ => rfl
          | name _ _ => rfl
          | methods _ hother _ => cases hname.symm.trans hother
        · cases hfalse
    | false =>
      rw [expandWithin_succ, hbody, embeds_of_body hbody]
      simp only [hname, Bool.false_eq_true, if_false, true_and, List.mem_append,
        List.mem_flatMap]
      rw [or_comm]
      refine or_congr_left ?_
      constructor
      · intro h
        split at h
        · cases h
        · rename_i hmethods
          rw [List.mem_singleton.mp h]
          exact .methods hbody hname (by simpa using hmethods)
      · intro h
        cases h with
        | plain hnone => cases hbody.symm.trans hnone
        | name _ hother => cases hname.symm.trans hother
        | methods hsame _ hmethods =>
          cases hbody.symm.trans hsame
          simp [hmethods]

/-- An expansion writes the types that it comes to through interfaces the package cannot name. -/
theorem mem_expandWithin (shallow : Digraph.Shallow p.embeds depth id) :
    entry ∈ p.expandWithin home depth id ↔
      ∃ x, Relation.ReflTransGen (p.Enters (p.isNameable home)) id x ∧
        p.WrittenAs home x entry := by
  induction depth generalizing id with
  | zero => exact shallow.elim
  | succ depth ih =>
    rw [mem_expandWithin_succ]
    constructor
    · intro h
      rcases h with h | ⟨hname, e, he, hmem⟩
      · exact ⟨id, .refl, h⟩
      · obtain ⟨x, hreach, hwritten⟩ := (ih (shallow.next he)).mp hmem
        exact ⟨x, .head ⟨hname, mem_embeds.mp he⟩ hreach, hwritten⟩
    · intro h
      obtain ⟨x, hreach, hwritten⟩ := h
      rcases hreach.cases_head with rfl | ⟨e, step, hbelow⟩
      · exact .inl hwritten
      · have he : e ∈ p.embeds id := mem_embeds.mpr step.2
        exact .inr ⟨step.1, e, he, (ih (shallow.next he)).mpr ⟨x, hbelow, hwritten⟩⟩

end Depth

section WellFormed

variable (wf : p.WellFormed)
include wf

theorem mem_expand : entry ∈ p.expand home id ↔
    ∃ x, Relation.ReflTransGen (p.Enters (p.isNameable home)) id x ∧ p.WrittenAs home x entry :=
  mem_expandWithin (embeds_shallow wf id)

/-- A method declared below a type is among those that some entry stands for. A name that the way
down passes stands for all below it, so the first one will do. -/
theorem exists_entry_of_declares {method : Method} (h : Relation.ReflTransGen p.Embeds id x)
    (hdecl : p.Declares x method) :
    ∃ entry ∈ p.expand home id, method.key ∈ p.writtenKeys entry := by
  induction h using Relation.ReflTransGen.head_induction_on with
  | refl =>
    obtain ⟨entry, hwritten, hkey⟩ : ∃ entry, p.WrittenAs home x entry ∧ _ :=
      hdecl.exists_writtenAs wf
    exact ⟨entry, (mem_expand wf).mpr ⟨x, .refl, hwritten⟩, hkey⟩
  | @head a b step hrest ih =>
    cases hname : p.isNameable home a with
    | true =>
      have hwritten : p.WrittenAs home a (.type a) := .name (isInterface_of_embeds step) hname
      refine ⟨.type a, (mem_expand wf).mpr ⟨a, .refl, hwritten⟩, ?_⟩
      exact (key_mem_interfaceMethods wf).mpr ⟨x, method, .head step hrest, hdecl, rfl⟩
    | false =>
      obtain ⟨entry, hentry, hkey⟩ := ih
      obtain ⟨y, hreach, hwritten⟩ := (mem_expand wf).mp hentry
      exact ⟨entry, (mem_expand wf).mpr ⟨y, .head ⟨hname, step⟩ hreach, hwritten⟩, hkey⟩

theorem key_mem_expand {key : MethodKey} : key ∈ (p.interfaceMethods id).map Method.key ↔
    ∃ entry ∈ p.expand home id, key ∈ p.writtenKeys entry := by
  rw [key_mem_interfaceMethods wf]
  constructor
  · intro h
    obtain ⟨e, method, hreach, hdecl, rfl⟩ := h
    exact exists_entry_of_declares wf hreach hdecl
  · intro h
    obtain ⟨entry, hentry, hkey⟩ := h
    obtain ⟨x, hreach, hwritten⟩ := (mem_expand wf).mp hentry
    obtain ⟨e, method, hbelow, hdecl, rfl⟩ := hwritten.key_declared wf hkey
    exact ⟨e, method, (Enters.embeds hreach).trans hbelow, hdecl, rfl⟩

end WellFormed

/-- What a message about a package writes for a type can be named there and stands for all methods
of the type. -/
structure ExpandsToNameable (p : Program) (home : Option PackageId) (id : TypeId) : Prop where
  types : ∀ x, .type x ∈ p.expand home id → p.interface? x = none ∨
    ∃ decl, p.named? x = some decl ∧ (decl.isExported = true ∨ decl.package = home)
  methods : ∀ x, .methods x ∈ p.expand home id →
    ∃ body, p.interface? x = some body ∧ body.methods ≠ [] ∧
      ∀ decl, p.named? x = some decl → decl.isExported = false ∧ decl.package ≠ home
  keys : ∀ key, key ∈ (p.interfaceMethods id).map Method.key ↔
    ∃ entry ∈ p.expand home id, key ∈ p.writtenKeys entry

theorem expansion_is_nameable_and_lossless (p : Program) (valid : p.defect? = none)
    (home : Option PackageId) (id : TypeId) : p.ExpandsToNameable home id := by
  have wf := WellFormed.of_defect? valid
  refine ⟨?_, ?_, fun key => key_mem_expand wf⟩
  · intro x hx
    obtain ⟨_, _, hwritten⟩ := (mem_expand wf).mp hx
    exact writtenAs_type hwritten
  · intro x hx
    obtain ⟨_, _, hwritten⟩ := (mem_expand wf).mp hx
    exact writtenAs_methods hwritten

/-- Package `lib` has `i = interface { j; k; interface { Ping(); app.own; N }; int }` with
`j = interface { L }` and `k = interface { M(); N }`; the interface `own` of package `app` has an
unexported method. -/
def hiddenLayers : Program where
  package := ⟨0⟩
  packages := #[⟨"app", "app"⟩, ⟨"lib", "lib"⟩]
  types := #[
    .signature ⟨[], [], false⟩,
    .interface ⟨[⟨"Lock", none, ⟨0⟩⟩], []⟩,
    .named ⟨"L", some ⟨1⟩, ⟨1⟩, []⟩,
    .interface ⟨[⟨"Notify", none, ⟨0⟩⟩], []⟩,
    .named ⟨"N", some ⟨1⟩, ⟨3⟩, []⟩,
    .interface ⟨[], [⟨2⟩]⟩,
    .named ⟨"j", some ⟨1⟩, ⟨5⟩, []⟩,
    .interface ⟨[⟨"M", none, ⟨0⟩⟩], [⟨4⟩]⟩,
    .named ⟨"k", some ⟨1⟩, ⟨7⟩, []⟩,
    .interface ⟨[⟨"hold", some ⟨0⟩, ⟨0⟩⟩], []⟩,
    .named ⟨"own", some ⟨0⟩, ⟨9⟩, []⟩,
    .basic "int",
    .interface ⟨[⟨"Ping", none, ⟨0⟩⟩], [⟨10⟩, ⟨4⟩]⟩,
    .interface ⟨[], [⟨6⟩, ⟨8⟩, ⟨12⟩, ⟨11⟩]⟩,
    .named ⟨"i", some ⟨1⟩, ⟨13⟩, []⟩]
  objects := #[]
  files := []

theorem hiddenLayers_valid : hiddenLayers.defect? = none := by
  decide

/-- Seen from `app`, `i` and `j` give way to their embeds, the methods of `k` and of the literal are
written out, and `own` is written by its name though it is not exported. -/
theorem hiddenLayers_expanded :
    hiddenLayers.defect? = none ∧
      hiddenLayers.expand (some ⟨0⟩) ⟨14⟩ =
        [.type ⟨2⟩, .type ⟨4⟩, .methods ⟨8⟩, .type ⟨10⟩, .type ⟨4⟩, .methods ⟨12⟩, .type ⟨11⟩] ∧
      hiddenLayers.ExpandsToNameable (some ⟨0⟩) ⟨14⟩ :=
  ⟨hiddenLayers_valid, by decide,
    expansion_is_nameable_and_lossless hiddenLayers hiddenLayers_valid (some ⟨0⟩) ⟨14⟩⟩

end LeastContext.Program

import LeastContext.Proofs.Flattening
import LeastContext.Proofs.Lists

namespace LeastContext.Program

variable {p : Program} {id x : TypeId} {name : String}

theorem declares_iff : p.declares name x = true ↔
    ∃ body, p.interface? x = some body ∧ ∃ method ∈ body.methods, method.name = name := by
  cases hbody : p.interface? x <;> simp [declares_def, hbody, Interface.declares]

theorem Declares.declaresMethods {method : Method} (h : p.Declares x method) :
    p.declaresMethods x = true := by
  obtain ⟨body, hbody, written, hw, _⟩ := h
  exact declaresMethods_iff.mpr ⟨body, hbody, List.ne_nil_of_mem hw⟩

/-- The name of a method is part of its key. -/
theorem declares_iff_key : p.declares name x = true ↔
    ∃ method, p.Declares x method ∧ method.key.name = name := by
  rw [declares_iff]
  constructor
  · intro h
    obtain ⟨body, hbody, written, hw, hname⟩ := h
    exact ⟨⟨written.key, written.signature⟩, ⟨body, hbody, written, hw, rfl⟩, hname⟩
  · intro h
    obtain ⟨method, ⟨body, hbody, written, hw, rfl⟩, hname⟩ := h
    exact ⟨body, hbody, written, hw, hname⟩

section WellFormed

variable (wf : p.WellFormed)
include wf

theorem key_mem_leafGroups {key : MethodKey} : key ∈ (p.interfaceMethods id).map Method.key ↔
    ∃ leaf ∈ p.leafGroups id, key ∈ (p.interfaceMethods leaf).map Method.key := by
  constructor
  · intro h
    obtain ⟨e, method, hreach, hdecl, hkey⟩ := (key_mem_interfaceMethods wf).mp h
    obtain ⟨leaf, hleaf, hbelow⟩ := below_leafGroup wf hreach hdecl.declaresMethods
    exact ⟨leaf, hleaf, (key_mem_interfaceMethods wf).mpr ⟨e, method, hbelow, hdecl, hkey⟩⟩
  · intro h
    obtain ⟨leaf, hleaf, hmem⟩ := h
    obtain ⟨e, method, hbelow, hdecl, hkey⟩ := (key_mem_interfaceMethods wf).mp hmem
    have hreach := (leafGroup_below wf hleaf).trans hbelow
    exact (key_mem_interfaceMethods wf).mpr ⟨e, method, hreach, hdecl, hkey⟩

theorem explicitlyContaining_ne_nil : p.explicitlyContaining name id ≠ [] ↔
    ∃ key ∈ (p.interfaceMethods id).map Method.key, key.name = name := by
  constructor
  · intro h
    obtain ⟨e, he⟩ := List.exists_mem_of_ne_nil _ h
    obtain ⟨hreach, hdeclares⟩ := (mem_explicitlyContaining wf).mp he
    obtain ⟨method, hdecl, hname⟩ := declares_iff_key.mp hdeclares
    exact ⟨method.key, (key_mem_interfaceMethods wf).mpr ⟨e, method, hreach, hdecl, rfl⟩, hname⟩
  · intro h
    obtain ⟨key, hmem, hname⟩ := h
    obtain ⟨e, method, hreach, hdecl, rfl⟩ := (key_mem_interfaceMethods wf).mp hmem
    have he : e ∈ p.explicitlyContaining name id :=
      (mem_explicitlyContaining wf).mpr ⟨hreach, declares_iff_key.mpr ⟨method, hdecl, hname⟩⟩
    exact List.ne_nil_of_mem he

end WellFormed

/-- The capability groups of a type and the look-up by name lose no method of its method set. -/
structure KeepsMethods (p : Program) (id : TypeId) : Prop where
  groups_nodup : (p.leafGroups id).Nodup
  groups_declare : ∀ leaf ∈ p.leafGroups id,
    ∃ body, p.interface? leaf = some body ∧ body.methods ≠ []
  keys_of_groups : ∀ key, key ∈ (p.interfaceMethods id).map Method.key ↔
    ∃ leaf ∈ p.leafGroups id, key ∈ (p.interfaceMethods leaf).map Method.key
  found_iff : ∀ name, p.explicitlyContaining name id ≠ [] ↔
    ∃ key ∈ (p.interfaceMethods id).map Method.key, key.name = name
  found_nodup : ∀ name, (p.explicitlyContaining name id).Nodup
  found_where : ∀ name x, x ∈ p.explicitlyContaining name id ↔
    Relation.ReflTransGen p.Embeds id x ∧
      ∃ body, p.interface? x = some body ∧ ∃ method ∈ body.methods, method.name = name

theorem groups_and_lookup_keep_methods (p : Program) (valid : p.defect? = none) (id : TypeId) :
    p.KeepsMethods id := by
  have wf := WellFormed.of_defect? valid
  refine ⟨eraseDups_nodup _, ?_, ?_, ?_, ?_, ?_⟩
  · intro leaf hleaf
    exact declaresMethods_iff.mp ((mem_leafGroups wf).mp hleaf).2
  · intro key
    exact key_mem_leafGroups wf
  · intro name
    exact explicitlyContaining_ne_nil wf
  · intro name
    exact eraseDups_nodup _
  · intro name x
    rw [mem_explicitlyContaining wf, declares_iff]

/-- A literal that embeds `Env = interface { context.Context; Logger }`, the base context once more,
another name of `Logger = interface { context.Context; Log() }`, and a type that is no interface. -/
def layeredGroups : Program where
  package := ⟨0⟩
  packages := #[⟨"app", "app"⟩, ⟨"context", "context"⟩]
  types := #[
    .signature ⟨[], [], false⟩,
    .interface ⟨[⟨"Done", none, ⟨0⟩⟩], []⟩,
    .named ⟨"Context", some ⟨1⟩, ⟨1⟩, []⟩,
    .interface ⟨[⟨"Log", none, ⟨0⟩⟩], [⟨2⟩]⟩,
    .named ⟨"Logger", some ⟨0⟩, ⟨3⟩, []⟩,
    .interface ⟨[], [⟨2⟩, ⟨4⟩]⟩,
    .named ⟨"Env", some ⟨0⟩, ⟨5⟩, []⟩,
    .named ⟨"Printer", some ⟨0⟩, ⟨4⟩, []⟩,
    .basic "int",
    .interface ⟨[], [⟨6⟩, ⟨2⟩, ⟨7⟩, ⟨8⟩]⟩]
  objects := #[]
  files := []

theorem layeredGroups_valid : layeredGroups.defect? = none := by
  decide

/-- The base context is a group though it also lies below the others, and a method declared under
two names is found under both. -/
theorem layeredGroups_keep_methods :
    layeredGroups.defect? = none ∧ layeredGroups.leafGroups ⟨9⟩ = [⟨2⟩, ⟨4⟩, ⟨7⟩] ∧
      layeredGroups.explicitlyContaining "Log" ⟨9⟩ = [⟨4⟩, ⟨7⟩] ∧
      layeredGroups.KeepsMethods ⟨9⟩ :=
  ⟨layeredGroups_valid, by decide, by decide,
    groups_and_lookup_keep_methods layeredGroups layeredGroups_valid ⟨9⟩⟩

end LeastContext.Program

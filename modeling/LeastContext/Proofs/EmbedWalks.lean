import LeastContext.Composition
import LeastContext.Proofs.WalkDepth
import LeastContext.Proofs.WellFormed

namespace LeastContext.Program

variable {p : Program} {stop : TypeId → Bool} {home : Option PackageId} {id x : TypeId}

/-- A step of a walk: an embed of a type that the walk does not stop at. -/
def Enters (p : Program) (stop : TypeId → Bool) (a b : TypeId) : Prop :=
  stop a = false ∧ p.Embeds a b

theorem embedWalkWithin_deeper {depth deeper : Nat} (h : Digraph.Shallow p.embeds depth id)
    (hle : depth ≤ deeper) :
    p.embedWalkWithin stop deeper id = p.embedWalkWithin stop depth id := by
  induction depth generalizing deeper id with
  | zero => exact h.elim
  | succ depth ih =>
    obtain ⟨deeper, rfl⟩ := Nat.exists_eq_add_of_le' (Nat.lt_of_lt_of_le (Nat.succ_pos _) hle)
    have hbelow : (p.embeds id).flatMap (p.embedWalkWithin stop deeper) =
        (p.embeds id).flatMap (p.embedWalkWithin stop depth) :=
      List.flatMap_congr fun e he => ih (h.next he) (by omega)
    rw [embedWalkWithin_succ, embedWalkWithin_succ, hbelow]

theorem mem_embedWalkWithin {depth : Nat} (h : x ∈ p.embedWalkWithin stop depth id) :
    Relation.ReflTransGen (p.Enters stop) id x := by
  induction depth generalizing id with
  | zero => cases h
  | succ depth ih =>
    rw [embedWalkWithin_succ] at h
    rcases List.mem_cons.mp h with rfl | h
    · exact .refl
    · split at h
      · cases h
      · rename_i hstop
        obtain ⟨e, he, hx⟩ := List.mem_flatMap.mp h
        exact .head ⟨by simpa using hstop, mem_embeds.mp he⟩ (ih hx)

theorem Enters.embeds (h : Relation.ReflTransGen (p.Enters stop) id x) :
    Relation.ReflTransGen p.Embeds id x := by
  have weaker : p.Enters stop ≤ p.Embeds := fun _ _ step => step.2
  exact Relation.ReflTransGen.mono weaker id x h

/-- A walk that stops nowhere passes every embed. -/
theorem enters_everything :
    Relation.ReflTransGen (p.Enters fun _ => false) id x ↔ Relation.ReflTransGen p.Embeds id x := by
  have stronger : p.Embeds ≤ p.Enters fun _ => false := fun _ _ step => ⟨rfl, step⟩
  exact ⟨Enters.embeds, Relation.ReflTransGen.mono stronger id x⟩

theorem isRequestable_iff : p.isRequestable home x = true ↔
    p.isInterface x = true ∧
      ∃ decl, p.named? x = some decl ∧ (decl.package ≠ home ∨ decl.isExported = true) := by
  cases hn : p.named? x <;> simp [isRequestable_def, hn]

theorem isForeign_iff : p.isForeign home x = true ↔
    ∃ decl, p.named? x = some decl ∧ decl.package ≠ home := by
  cases hn : p.named? x <;> simp [isForeign_def, hn]

theorem isForeign_eq_false :
    p.isForeign home x = false ↔ ∀ decl, p.named? x = some decl → decl.package = home := by
  cases hn : p.named? x <;> simp [isForeign_def, hn]

theorem isInterface_iff : p.isInterface x = true ↔ ∃ body, p.interface? x = some body := by
  rw [isInterface_def, Option.isSome_iff_exists]

theorem isInterface_of_embeds {a b : TypeId} (step : p.Embeds a b) : p.isInterface a = true := by
  obtain ⟨c, body, hd, hform, _⟩ := step
  exact isInterface_iff.mpr ⟨body, interface?_eq_some.mpr ⟨c, hd, hform⟩⟩

theorem embeds_of_none (h : p.interface? id = none) : p.embeds id = [] := by
  simp [Program.embeds_def, h]

theorem embeds_of_body {body : Interface} (h : p.interface? id = some body) :
    p.embeds id = body.embeds := by
  simp [Program.embeds_def, h]

theorem declaresMethods_of_mem_leafGroups (h : x ∈ p.leafGroups id) :
    p.declaresMethods x = true := by
  rw [leafGroups_def, List.mem_eraseDups] at h
  exact (List.mem_filter.mp h).2

theorem declaresMethods_iff : p.declaresMethods x = true ↔
    ∃ body, p.interface? x = some body ∧ body.methods ≠ [] := by
  cases hbody : p.interface? x <;> simp [declaresMethods_def, hbody]

section WellFormed

variable (wf : p.WellFormed)
include wf

theorem embeds_shallow (id : TypeId) : Digraph.Shallow p.embeds (p.types.size + 1) id := by
  have edge : Digraph.Edge p.embeds = p.Embeds := by
    funext a b
    exact propext mem_embeds
  have inside : ∀ a b, Digraph.Edge p.embeds a b → b ∈ p.typeIds := by
    intro a b step
    exact mem_typeIds.mpr (embeds_inside wf.resolved (mem_embeds.mp step))
  have hshallow := Digraph.shallow_of_acyclic inside (by rw [edge]; exact wf.embeds_acyclic) id
  simpa [typeIds] using hshallow

/-- The bound of a walk is never what ends it. -/
theorem embedWalk_eq (stop : TypeId → Bool) (id : TypeId) : p.embedWalk stop id =
    id :: if stop id then [] else (p.embeds id).flatMap (p.embedWalk stop) := by
  have hdeep : p.embedWalk stop id = p.embedWalkWithin stop (p.types.size + 1 + 1) id :=
    (embedWalkWithin_deeper (embeds_shallow wf id) (Nat.le_succ _)).symm
  rw [hdeep, embedWalkWithin_succ]
  rfl

/-- A walk lists the types that embeds lead to without passing a stop. -/
theorem mem_embedWalk :
    x ∈ p.embedWalk stop id ↔ Relation.ReflTransGen (p.Enters stop) id x := by
  refine ⟨mem_embedWalkWithin, ?_⟩
  intro h
  induction h using Relation.ReflTransGen.head_induction_on with
  | refl =>
    rw [embedWalk_eq wf]
    exact List.mem_cons_self
  | @head a b step _ ih =>
    rw [embedWalk_eq wf, if_neg (by simp [step.1])]
    exact List.mem_cons_of_mem _ (List.mem_flatMap.mpr ⟨b, mem_embeds.mpr step.2, ih⟩)

/-- A variable asks by name for the named interfaces that its package can see in its type. -/
theorem mem_explicitComposition : x ∈ p.explicitComposition home id ↔
    Relation.ReflTransGen (p.Enters (p.isForeign home)) id x ∧ p.isRequestable home x = true := by
  rw [explicitComposition_def, List.mem_eraseDups, List.mem_filter, mem_embedWalk wf]

theorem mem_leafGroups : x ∈ p.leafGroups id ↔
    Relation.ReflTransGen (p.Enters p.declaresMethods) id x ∧ p.declaresMethods x = true := by
  rw [leafGroups_def, List.mem_eraseDups, List.mem_filter, mem_embedWalk wf]

theorem leafGroup_below (h : x ∈ p.leafGroups id) : Relation.ReflTransGen p.Embeds id x :=
  Enters.embeds ((mem_leafGroups wf).mp h).1

theorem mem_leafGroups_of_bare (bare : p.declaresMethods id = false) :
    x ∈ p.leafGroups id ↔ ∃ e, p.Embeds id e ∧ x ∈ p.leafGroups e := by
  simp only [leafGroups_def, List.mem_eraseDups, List.mem_filter]
  rw [embedWalk_eq wf, if_neg (by simp [bare]), List.mem_cons, List.mem_flatMap]
  constructor
  · rintro ⟨rfl | ⟨e, he, hx⟩, declares⟩
    · simp [bare] at declares
    · exact ⟨e, mem_embeds.mp he, hx, declares⟩
  · rintro ⟨e, step, hx, declares⟩
    exact ⟨.inr ⟨e, mem_embeds.mpr step, hx⟩, declares⟩

/-- On the way to an interface with methods of its own the first such interface is a group. -/
theorem below_leafGroup (h : Relation.ReflTransGen p.Embeds id x)
    (hx : p.declaresMethods x = true) :
    ∃ leaf ∈ p.leafGroups id, Relation.ReflTransGen p.Embeds leaf x := by
  induction h using Relation.ReflTransGen.head_induction_on with
  | refl => exact ⟨x, (mem_leafGroups wf).mpr ⟨.refl, hx⟩, .refl⟩
  | @head a b step hrest ih =>
    cases ha : p.declaresMethods a with
    | true => exact ⟨a, (mem_leafGroups wf).mpr ⟨.refl, ha⟩, .head step hrest⟩
    | false =>
      obtain ⟨leaf, hleaf, hbelow⟩ := ih
      obtain ⟨hreach, hdeclares⟩ := (mem_leafGroups wf).mp hleaf
      exact ⟨leaf, (mem_leafGroups wf).mpr ⟨.head ⟨ha, step⟩ hreach, hdeclares⟩, hbelow⟩

theorem mem_explicitlyContaining {method : String} : x ∈ p.explicitlyContaining method id ↔
    Relation.ReflTransGen p.Embeds id x ∧ p.declares method x = true := by
  rw [explicitlyContaining_def, List.mem_eraseDups, List.mem_filter, mem_embedWalk wf,
    enters_everything]

/-- Nothing is met again below a type. -/
theorem embeds_irrefl {e : TypeId} (step : p.Embeds id e)
    (h : Relation.ReflTransGen p.Embeds e x) : x ≠ id := by
  rintro rfl
  exact wf.embeds_acyclic x (.head' step h)

end WellFormed

end LeastContext.Program

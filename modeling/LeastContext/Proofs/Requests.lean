import LeastContext.Analysis.Run
import LeastContext.Proofs.EmbedWalks

namespace LeastContext.Program

variable {p : Program} {request : Request} {home : Option PackageId} {id part e : TypeId}

theorem isRequestedWithin_deeper {depth deeper : Nat} (h : Digraph.Shallow p.namedParts depth id)
    (hle : depth ≤ deeper) :
    p.isRequestedWithin request deeper id = p.isRequestedWithin request depth id := by
  induction depth generalizing deeper id with
  | zero => exact h.elim
  | succ depth ih =>
    obtain ⟨deeper, rfl⟩ := Nat.exists_eq_add_of_le' (Nat.lt_of_lt_of_le (Nat.succ_pos _) hle)
    have same : ∀ part ∈ p.namedParts id,
        p.isRequestedWithin request deeper part = p.isRequestedWithin request depth part :=
      fun part hpart => ih (h.next hpart) (by omega)
    have hparts : (p.namedParts id).all (p.isRequestedWithin request deeper) =
        (p.namedParts id).all (p.isRequestedWithin request depth) := by
      rw [Bool.eq_iff_iff, List.all_eq_true, List.all_eq_true]
      exact forall₂_congr fun part hpart => by rw [same part hpart]
    rw [isRequestedWithin_succ, isRequestedWithin_succ]
    split
    · rfl
    · rw [hparts]

theorem mem_namedParts : part ∈ p.namedParts id ↔
    ∃ decl, p.named? id = some decl ∧ part ∈ p.explicitComposition decl.package id ∧ part ≠ id := by
  cases hn : p.named? id <;> simp [namedParts_def, hn]

theorem mem_unrequestedUses {usage : Usage} : e ∈ p.unrequestedUses request usage ↔
    (∃ used ∈ usage.interfaces, e ∈ p.explicitComposition request.home used ∧
        p.isRequested request e = false) ∨
      ∃ method ∈ usage.methods, p.isMethodRequested request method = false ∧
        e ∈ p.explicitlyContaining method request.declared := by
  simp only [unrequestedUses_def, List.mem_append, List.mem_flatMap, List.mem_filter,
    Bool.not_eq_true']
  refine or_congr_right (exists_congr fun method => and_congr_right fun _ => ?_)
  cases p.isMethodRequested request method <;> simp

section WellFormed

variable (wf : p.WellFormed)
include wf

theorem namedParts_below (h : part ∈ p.namedParts id) : Relation.TransGen p.Embeds id part := by
  obtain ⟨decl, _, hpart, hne⟩ := mem_namedParts.mp h
  have hreach := Enters.embeds ((mem_explicitComposition wf).mp hpart).1
  rcases Relation.reflTransGen_iff_eq_or_transGen.mp hreach with he | hbelow
  · exact absurd he hne
  · exact hbelow

theorem namedParts_shallow (id : TypeId) :
    Digraph.Shallow p.namedParts (p.types.size + 1) id := by
  have inside : ∀ a b, Digraph.Edge p.namedParts a b → b ∈ p.typeIds := by
    intro a b step
    obtain ⟨last, _, hlast⟩ := Relation.TransGen.tail'_iff.mp (namedParts_below wf step)
    exact mem_typeIds.mpr (embeds_inside wf.resolved hlast)
  have acyclic : ∀ a, ¬ Relation.TransGen (Digraph.Edge p.namedParts) a a := by
    intro a cycle
    have below : Digraph.Edge p.namedParts ≤ Relation.TransGen p.Embeds :=
      fun _ _ step => namedParts_below wf step
    have hcycle := Relation.TransGen.mono below a a cycle
    rw [Relation.transGen_eq_self] at hcycle
    exact wf.embeds_acyclic a hcycle
  have hshallow := Digraph.shallow_of_acyclic inside acyclic id
  simpa [typeIds] using hshallow

/-- The rules by which an interface counts as asked for. -/
theorem isRequested_iff : p.isRequested request id = true ↔
    (p.isInterface id = true ∧ p.implements request.declared id = false) ∨
      p.isInlineWithMethods id = true ∨ id ∈ request.named ∨
      p.namedParts id ≠ [] ∧ ∀ part ∈ p.namedParts id, p.isRequested request part = true := by
  have hdeep : p.isRequested request id =
      p.isRequestedWithin request (p.types.size + 1 + 1) id :=
    (isRequestedWithin_deeper (namedParts_shallow wf id) (Nat.le_succ _)).symm
  rw [hdeep, isRequestedWithin_succ]
  simp only [Bool.or_eq_true, Bool.and_eq_true, Bool.not_eq_true', decide_eq_true_eq, or_assoc]
  refine or_congr_right (or_congr_right (or_congr_right ?_))
  cases p.namedParts id <;> simp [isRequested_def]

theorem isRequested_of_named (h : id ∈ request.named) : p.isRequested request id = true :=
  (isRequested_iff wf).mpr (.inr (.inr (.inl h)))

theorem isMethodRequested_false {method : String} :
    p.isMethodRequested request method = false ↔
      ∀ other, Relation.ReflTransGen p.Embeds request.declared other →
        p.declares method other = true → p.isRequested request other = false := by
  simp only [isMethodRequested_def, List.any_eq_false, mem_explicitlyContaining wf, and_imp,
    Bool.not_eq_true]

end WellFormed

theorem request?_eq_some {object : ObjectId} (h : p.request? object = some request) :
    request.named = p.explicitComposition request.home request.declared := by
  rw [request?_def] at h
  obtain ⟨declared, _, rfl⟩ := Option.map_eq_some_iff.mp h
  rfl

end LeastContext.Program

import LeastContext.Proofs.CycleSearch
import Mathlib.Data.List.Chain

namespace LeastContext.Digraph

variable {α : Type} {edges : α → List α} {nodes : List α} {a b : α}

/-- Every walk from a node passes fewer than so many nodes. -/
def Shallow (edges : α → List α) : Nat → α → Prop
  | 0, _ => False
  | depth + 1, node => ∀ next ∈ edges node, Shallow edges depth next

theorem Shallow.next {depth : Nat} (h : Shallow edges (depth + 1) a) (hb : b ∈ edges a) :
    Shallow edges depth b :=
  h b hb

theorem Shallow.deeper {depth deeper : Nat} (h : Shallow edges depth a) (hle : depth ≤ deeper) :
    Shallow edges deeper a := by
  induction depth generalizing deeper a with
  | zero => exact h.elim
  | succ depth ih =>
    obtain ⟨deeper, rfl⟩ := Nat.exists_eq_add_of_le' (Nat.lt_of_lt_of_le (Nat.succ_pos _) hle)
    intro next hnext
    exact ih (h.next hnext) (by omega)

/-- What lies one step below lies within the same depth. -/
theorem Shallow.below {depth : Nat} (h : Shallow edges depth a) (hb : b ∈ edges a) :
    Shallow edges depth b := by
  cases depth with
  | zero => exact h.elim
  | succ depth => exact (h.next hb).deeper (Nat.le_succ depth)

/-- A node that is not shallow begins a walk of that length. -/
theorem walk_of_not_shallow {depth : Nat} (h : ¬ Shallow edges depth a) :
    ∃ walk : List α, walk.length = depth ∧ List.IsChain (Edge edges) (a :: walk) := by
  induction depth generalizing a with
  | zero => exact ⟨[], rfl, .singleton a⟩
  | succ depth ih =>
    simp only [Shallow, not_forall] at h
    obtain ⟨next, hnext, hdeep⟩ := h
    obtain ⟨walk, hlen, hwalk⟩ := ih hdeep
    exact ⟨next :: walk, by simp [hlen], .cons_cons hnext hwalk⟩

/-- Without cycles no walk is longer than the number of nodes that edges lead to. -/
theorem shallow_of_acyclic (inside : ∀ a b, Edge edges a b → b ∈ nodes)
    (acyclic : ∀ a, ¬ Relation.TransGen (Edge edges) a a) (a : α) :
    Shallow edges (nodes.length + 1) a := by
  by_contra h
  obtain ⟨walk, hlen, hwalk⟩ := walk_of_not_shallow h
  have hall : (a :: walk).Pairwise (Relation.TransGen (Edge edges)) :=
    (hwalk.imp fun _ _ step => Relation.TransGen.single step).pairwise
  obtain ⟨hreach, hpairs⟩ := List.pairwise_cons.mp hall
  have hnodup : walk.Nodup := by
    refine hpairs.imp ?_
    rintro x _ hcycle rfl
    exact acyclic x hcycle
  have hsub : walk ⊆ nodes := by
    intro x hx
    obtain ⟨last, _, step⟩ := Relation.TransGen.tail'_iff.mp (hreach x hx)
    exact inside last x step
  have hle := hnodup.length_le_of_subset hsub
  omega

end LeastContext.Digraph

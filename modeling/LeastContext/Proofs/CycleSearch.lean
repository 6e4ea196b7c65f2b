import LeastContext.Digraph.Cycle
import Mathlib.Logic.Relation
import Mathlib.Data.List.Nodup

namespace LeastContext.Digraph

variable {α : Type} {edges : α → List α}

def Edge (edges : α → List α) (a b : α) : Prop :=
  b ∈ edges a

/-- A node from which every walk ends. -/
def Ends (edges : α → List α) (node : α) : Prop :=
  Acc (fun b a => Edge edges a b) node

theorem Ends.no_cycle {node : α} (h : Ends edges node) :
    ¬ Relation.TransGen (Edge edges) node node := by
  induction h with
  | intro node _ ih =>
    intro cycle
    obtain ⟨next, step, back⟩ := Relation.TransGen.head'_iff.mp cycle
    exact ih next step (Relation.TransGen.tail' back step)

/-- A failing fold fails at one of its elements. -/
theorem foldlM_error {σ ε β : Type} {f : σ → β → Except ε σ} {xs : List β} {s : σ} {e : ε}
    (h : xs.foldlM f s = .error e) : ∃ x ∈ xs, ∃ t, f t x = .error e := by
  induction xs generalizing s with
  | nil => cases h
  | cons x xs ih =>
    rw [List.foldlM_cons] at h
    cases hx : f s x with
    | error e' =>
      rw [hx] at h
      cases h
      exact ⟨x, List.mem_cons_self, s, hx⟩
    | ok t =>
      rw [hx] at h
      obtain ⟨y, hy, u, hu⟩ := ih h
      exact ⟨y, List.mem_cons_of_mem _ hy, u, hu⟩

/-- A fold of steps that each keep an invariant, keep what is in the list and put their own
element into it ends with all elements in the list. -/
theorem foldlM_collects {ε : Type} (inv : List α → Prop) {f : List α → α → Except ε (List α)}
    {xs s t : List α} (h : xs.foldlM f s = .ok t) (hs : inv s)
    (step : ∀ x ∈ xs, ∀ u v, inv u → f u x = .ok v → inv v ∧ u ⊆ v ∧ x ∈ v) :
    inv t ∧ s ⊆ t ∧ xs ⊆ t := by
  induction xs generalizing s with
  | nil =>
    cases h
    exact ⟨hs, fun _ hx => hx, by simp⟩
  | cons x xs ih =>
    rw [List.foldlM_cons] at h
    cases hx : f s x with
    | error e =>
      rw [hx] at h
      cases h
    | ok u =>
      rw [hx] at h
      obtain ⟨hu, hsu, hxu⟩ := step x List.mem_cons_self s u hs hx
      obtain ⟨ht, hut, hxs⟩ := ih h hu (fun y hy => step y (List.mem_cons_of_mem _ hy))
      refine ⟨ht, fun y hy => hut (hsu hy), ?_⟩
      intro y hy
      rcases List.mem_cons.mp hy with rfl | hy
      · exact hut hxu
      · exact hxs hy

variable [DecidableEq α]

/-- A visit that fails has come to a node on its path. What holds of the path and the node at hand
and is kept on the way to a successor holds there. -/
theorem visit_error_at {inv : List α → α → Prop} {fuel : Nat} {path done : List α}
    {node closing : α} (h : visit edges fuel path done node = .error closing)
    (step : ∀ path node, inv path node → ∀ child ∈ edges node, inv (node :: path) child)
    (hinv : inv path node) : ∃ path, closing ∈ path ∧ inv path closing := by
  induction fuel generalizing path done node with
  | zero => cases h
  | succ fuel ih =>
    rw [visit] at h
    split at h
    · rename_i hon
      cases h
      exact ⟨path, hon, hinv⟩
    · split at h
      · cases h
      · split at h
        · rename_i e hfold
          cases h
          obtain ⟨child, hchild, before, hvisit⟩ := foldlM_error hfold
          exact ih hvisit (step path node hinv child hchild)
        · cases h

/-- The path leads to the node at hand, so a node that closes it comes back to itself. -/
theorem visit_error {fuel : Nat} {path done : List α} {node closing : α}
    (h : visit edges fuel path done node = .error closing)
    (leads : ∀ x ∈ path, Relation.TransGen (Edge edges) x node) :
    Relation.TransGen (Edge edges) closing closing := by
  have step : ∀ path node, (∀ x ∈ path, Relation.TransGen (Edge edges) x node) →
      ∀ child ∈ edges node, ∀ x ∈ node :: path, Relation.TransGen (Edge edges) x child := by
    intro path node leads child hchild x hx
    rcases List.mem_cons.mp hx with rfl | hx
    · exact .single hchild
    · exact (leads x hx).tail hchild
  obtain ⟨path, hon, hleads⟩ := visit_error_at h step leads
  exact hleads closing hon

/-- A visit with fuel for every node off the path finishes its node and keeps the finished ones.
The path cannot outgrow the nodes, so the fuel never runs out. -/
theorem visit_ok {nodes : List α} (closed : ∀ n ∈ nodes, edges n ⊆ nodes) {fuel : Nat}
    {path done done' : List α} {node : α} (h : visit edges fuel path done node = .ok done')
    (hnode : node ∈ nodes) (hpath : path ⊆ nodes) (nodup : path.Nodup)
    (hfuel : nodes.length < fuel + path.length) (hdone : ∀ n ∈ done, Ends edges n) :
    (∀ n ∈ done', Ends edges n) ∧ done ⊆ done' ∧ node ∈ done' := by
  induction fuel generalizing path done done' node with
  | zero =>
    have := List.Nodup.length_le_of_subset nodup hpath
    omega
  | succ fuel ih =>
    rw [visit] at h
    split at h
    · cases h
    · rename_i hnew
      split at h
      · rename_i hm
        cases h
        exact ⟨hdone, fun _ hx => hx, hm⟩
      · split at h
        · cases h
        · rename_i finished hfold
          cases h
          obtain ⟨hends, hsub, hall⟩ := foldlM_collects (∀ n ∈ ·, Ends edges n) hfold hdone (by
            intro child hchild before after hbefore hvisit
            refine ih hvisit (closed node hnode hchild) ?_ (List.nodup_cons.mpr ⟨hnew, nodup⟩)
              (by simp only [List.length_cons]; omega) hbefore
            exact List.cons_subset.mpr ⟨hnode, hpath⟩)
          refine ⟨?_, fun x hx => List.mem_cons_of_mem _ (hsub hx), List.mem_cons_self⟩
          intro n hn
          rcases List.mem_cons.mp hn with rfl | hn
          · exact Acc.intro _ (fun child hchild => hends child (hall hchild))
          · exact hends n hn

theorem findCycle_some {nodes : List α} {closing : α} (h : findCycle nodes edges = some closing) :
    Relation.TransGen (Edge edges) closing closing := by
  unfold findCycle at h
  split at h
  · rename_i e hfold
    cases h
    obtain ⟨node, _, before, hvisit⟩ := foldlM_error hfold
    exact visit_error hvisit (by simp)
  · cases h

theorem findCycle_mem {nodes : List α} (closed : ∀ n ∈ nodes, edges n ⊆ nodes) {closing : α}
    (h : findCycle nodes edges = some closing) : closing ∈ nodes := by
  unfold findCycle at h
  split at h
  · rename_i hfold
    cases h
    obtain ⟨root, hroot, before, hvisit⟩ := foldlM_error hfold
    have step : ∀ (_ : List α), ∀ node ∈ nodes, ∀ child ∈ edges node, child ∈ nodes :=
      fun _ node hnode child hchild => closed node hnode hchild
    obtain ⟨_, _, hclosing⟩ := visit_error_at hvisit step hroot
    exact hclosing
  · cases h

theorem findCycle_none {nodes : List α} (closed : ∀ n ∈ nodes, edges n ⊆ nodes)
    (h : findCycle nodes edges = none) : ∀ n ∈ nodes, Ends edges n := by
  unfold findCycle at h
  split at h
  · cases h
  · rename_i done hfold
    obtain ⟨hends, _, hall⟩ := foldlM_collects (fun l => ∀ n ∈ l, Ends edges n) hfold
      (by simp) (by
        intro node hnode before after hbefore hvisit
        exact visit_ok closed hvisit hnode (by simp) List.nodup_nil (by simp) hbefore)
    exact fun n hn => hends n (hall hn)

/-- The search finds nothing exactly if no walk comes back to where it began. -/
theorem findCycle_eq_none {nodes : List α} (closed : ∀ n ∈ nodes, edges n ⊆ nodes)
    (outside : ∀ n, n ∉ nodes → edges n = []) :
    findCycle nodes edges = none ↔ ∀ n, ¬ Relation.TransGen (Edge edges) n n := by
  constructor
  · intro h n cycle
    by_cases hn : n ∈ nodes
    · exact (findCycle_none closed h n hn).no_cycle cycle
    · obtain ⟨next, step, _⟩ := Relation.TransGen.head'_iff.mp cycle
      rw [Edge, outside n hn] at step
      cases step
  · intro h
    cases hc : findCycle nodes edges with
    | none => rfl
    | some closing => exact absurd (findCycle_some hc) (h closing)

end LeastContext.Digraph

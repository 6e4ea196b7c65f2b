import LeastContext.Proofs.CycleSearch
import LeastContext.Proofs.Underlying
import Mathlib.Logic.Function.Basic

namespace LeastContext.Digraph

/-- How far the search has come with a node. -/
inductive Progress where
  | unvisited
  | onPath
  | done
  deriving DecidableEq

/-- A node on the path, its successors, and how many of them have been looked at. -/
structure Frame (α : Type) where
  node : α
  successors : List α
  next : Nat

/-- A state of the search: the roots still to be tried, a mark for every node, and the path, the
last node first. -/
structure Search (α : Type) where
  roots : List α
  marks : α → Progress
  stack : List (Frame α)

namespace Search

variable {α : Type} {edges : α → List α}

def start (nodes : List α) : Search α :=
  ⟨nodes, fun _ => .unvisited, []⟩

variable [DecidableEq α]

/-- Puts a node on the path. -/
def enter (edges : α → List α) (node : α) (s : Search α) : Search α where
  roots := s.roots
  marks := Function.update s.marks node .onPath
  stack := ⟨node, edges node, 0⟩ :: s.stack

/-- The next state, or the answer: a node that closes a cycle, or none when the roots are used
up. -/
def step (edges : α → List α) (s : Search α) : Search α ⊕ Option α :=
  match s.stack with
  | [] =>
    match s.roots with
    | [] => .inr none
    | root :: roots =>
      if s.marks root = .unvisited then .inl (enter edges root { s with roots })
      else .inl { s with roots }
  | frame :: below =>
    match frame.successors[frame.next]? with
    | none => .inl { s with marks := Function.update s.marks frame.node .done, stack := below }
    | some child =>
      match s.marks child with
      | .onPath => .inr (some child)
      | .unvisited =>
        .inl (enter edges child { s with stack := { frame with next := frame.next + 1 } :: below })
      | .done => .inl { s with stack := { frame with next := frame.next + 1 } :: below }

/-- The machine comes from a state to an answer in finitely many steps. -/
inductive Halts (edges : α → List α) : Search α → Option α → Prop where
  | stop {s : Search α} {answer : Option α} : s.step edges = .inr answer → Halts edges s answer
  | next {s t : Search α} {answer : Option α} :
      s.step edges = .inl t → Halts edges t answer → Halts edges s answer

theorem Halts.unique {s : Search α} {answer other : Option α} (h : Halts edges s answer)
    (h' : Halts edges s other) : answer = other := by
  induction h with
  | stop hstop =>
    cases h' with
    | stop hother => exact Sum.inr.inj (hstop.symm.trans hother)
    | next hstep _ => cases hstop.symm.trans hstep
  | next hstep _ ih =>
    cases h' with
    | stop hother => cases hstep.symm.trans hother
    | next hother hrest =>
      cases hstep.symm.trans hother
      exact ih hrest

/-- The marks of a state in which these nodes are on the path and these are done. -/
def marksOf (path finished : List α) (node : α) : Progress :=
  if node ∈ path then .onPath else if node ∈ finished then .done else .unvisited

/-- A state whose marks agree with its stack. -/
def marked (roots : List α) (stack : List (Frame α)) (finished : List α) : Search α :=
  ⟨roots, marksOf (stack.map Frame.node) finished, stack⟩

section Marks

variable {path finished : List α} {node : α}

theorem marksOf_onPath (h : node ∈ path) : marksOf path finished node = .onPath :=
  if_pos h

theorem marksOf_done (h : node ∉ path) (hdone : node ∈ finished) :
    marksOf path finished node = .done := by
  rw [marksOf, if_neg h, if_pos hdone]

theorem marksOf_unvisited (h : node ∉ path) (hnew : node ∉ finished) :
    marksOf path finished node = .unvisited := by
  rw [marksOf, if_neg h, if_neg hnew]

theorem marksOf_enter :
    Function.update (marksOf path finished) node .onPath = marksOf (node :: path) finished := by
  funext other
  by_cases h : other = node
  · subst h
    rw [Function.update_self, marksOf_onPath List.mem_cons_self]
  · rw [Function.update_of_ne h]
    simp [marksOf, h]

/-- A node that is left is on the path no more, since the path passed it once. -/
theorem marksOf_leave (h : node ∉ path) :
    Function.update (marksOf (node :: path) finished) node .done =
      marksOf path (node :: finished) := by
  funext other
  by_cases hother : other = node
  · subst hother
    rw [Function.update_self, marksOf_done h List.mem_cons_self]
  · rw [Function.update_of_ne hother]
    simp [marksOf, hother]

theorem start_eq (nodes : List α) : start nodes = marked nodes [] [] := by
  have hmarks : marksOf ([] : List α) [] = fun _ => .unvisited :=
    funext fun node => marksOf_unvisited List.not_mem_nil List.not_mem_nil
  rw [marked, List.map_nil, hmarks]
  rfl

end Marks

section Steps

variable {roots finished : List α} {root child : α} {frame : Frame α} {below : List (Frame α)}

theorem enter_marked {node : α} {stack : List (Frame α)} :
    enter edges node (marked roots stack finished) =
      marked roots (⟨node, edges node, 0⟩ :: stack) finished := by
  rw [enter, marked, marksOf_enter]
  rfl

theorem step_end : (marked ([] : List α) [] finished).step edges = .inr none :=
  rfl

theorem step_skip (h : root ∈ finished) :
    (marked (root :: roots) [] finished).step edges = .inl (marked roots [] finished) := by
  have hmark : marksOf [] finished root = .done := marksOf_done List.not_mem_nil h
  simp [step, marked, hmark]

theorem step_begin (h : root ∉ finished) : (marked (root :: roots) [] finished).step edges =
    .inl (marked roots [⟨root, edges root, 0⟩] finished) := by
  have hmark : marksOf [] finished root = .unvisited := marksOf_unvisited List.not_mem_nil h
  rw [← enter_marked]
  simp [step, marked, hmark]

theorem step_leave (hend : frame.successors[frame.next]? = none)
    (h : frame.node ∉ below.map Frame.node) : (marked roots (frame :: below) finished).step edges =
      .inl (marked roots below (frame.node :: finished)) := by
  simp only [step, marked, hend, List.map_cons, marksOf_leave h]

theorem step_close (hchild : frame.successors[frame.next]? = some child)
    (h : child ∈ (frame :: below).map Frame.node) :
    (marked roots (frame :: below) finished).step edges = .inr (some child) := by
  simp only [step, marked, hchild, marksOf_onPath h]

theorem step_pass (hchild : frame.successors[frame.next]? = some child)
    (h : child ∉ (frame :: below).map Frame.node) (hdone : child ∈ finished) :
    (marked roots (frame :: below) finished).step edges =
      .inl (marked roots ({ frame with next := frame.next + 1 } :: below) finished) := by
  simp only [step, marked, hchild, marksOf_done h hdone]
  rfl

theorem step_descend (hchild : frame.successors[frame.next]? = some child)
    (h : child ∉ (frame :: below).map Frame.node) (hnew : child ∉ finished) :
    (marked roots (frame :: below) finished).step edges =
      .inl (marked roots (⟨child, edges child, 0⟩ :: { frame with next := frame.next + 1 } :: below)
        finished) := by
  rw [← enter_marked]
  simp only [step, marked, hchild, marksOf_unvisited h hnew]
  rfl

end Steps

/-- From a state the machine does what a part of the recursive search does: it halts where that
part finds a cycle, and else comes to the state that belongs to the nodes finished by then. -/
def Follows (edges : α → List α) (s : Search α) (result : Except α (List α))
    (after : List α → Search α) : Prop :=
  match result with
  | .error closing => Halts edges s (some closing)
  | .ok finished => ∀ answer, Halts edges (after finished) answer → Halts edges s answer

namespace Follows

variable {s t : Search α} {result : Except α (List α)} {after later : List α → Search α}

theorem done {finished : List α} : Follows edges (after finished) (.ok finished) after :=
  fun _ h => h

theorem step (hstep : s.step edges = .inl t) (h : Follows edges t result after) :
    Follows edges s result after := by
  cases result with
  | error closing => exact .next hstep h
  | ok finished => exact fun answer hafter => .next hstep (h answer hafter)

theorem bind {more : List α → Except α (List α)} (h : Follows edges s result after)
    (hmore : ∀ finished, Follows edges (after finished) (more finished) later) :
    Follows edges s (result >>= more) later := by
  cases result with
  | error closing => exact h
  | ok finished =>
    have hrest := hmore finished
    change Follows edges s (more finished) later
    cases hresult : more finished with
    | error closing =>
      rw [hresult] at hrest
      exact h _ hrest
    | ok final =>
      rw [hresult] at hrest
      exact fun answer hfinal => h answer (hrest answer hfinal)

end Follows

section Simulation

variable {nodes roots finished : List α} {node child : α} {frame : Frame α}
  {below : List (Frame α)} {fuel : Nat}

theorem visit_new {path : List α} (h : node ∉ path) (hnew : node ∉ finished) :
    visit edges (fuel + 1) path finished node =
      ((edges node).foldlM (visit edges fuel (node :: path)) finished).map (node :: ·) := by
  rw [visit, if_neg h, if_neg hnew]
  cases (edges node).foldlM (visit edges fuel (node :: path)) finished <;> rfl

/-- The successors of the last node of the path, one after the other. When the cursor has passed
them all the machine leaves the node. -/
theorem successors_follow {rest : List α}
    (one : ∀ (frame : Frame α) (child : α) (finished : List α), frame.node = node →
      frame.successors[frame.next]? = some child → child ∈ nodes →
        Follows edges (marked roots (frame :: below) finished)
          (visit edges fuel (node :: below.map Frame.node) finished child)
          (marked roots ({ frame with next := frame.next + 1 } :: below)))
    (hnode : frame.node = node) (hrest : frame.successors.drop frame.next = rest)
    (inside : rest ⊆ nodes) (h : node ∉ below.map Frame.node) :
    Follows edges (marked roots (frame :: below) finished)
      ((rest.foldlM (visit edges fuel (node :: below.map Frame.node)) finished).map (node :: ·))
      (marked roots below) := by
  induction rest generalizing frame finished with
  | nil =>
    subst hnode
    have hend : frame.successors[frame.next]? = none :=
      List.getElem?_eq_none (List.drop_eq_nil_iff.mp hrest)
    exact .step (step_leave hend h) .done
  | cons child rest ih =>
    have hchild : frame.successors[frame.next]? = some child := by
      rw [← Nat.add_zero frame.next, ← List.getElem?_drop, hrest]
      rfl
    have hdrop : frame.successors.drop (frame.next + 1) = rest := by
      rw [← List.tail_drop, hrest]
      rfl
    obtain ⟨hin, hinside⟩ := List.cons_subset.mp inside
    rw [List.foldlM_cons]
    have hsplit : ∀ (first : Except α (List α)) (more : List α → Except α (List α)),
        (first >>= more).map (node :: ·) = first >>= fun f => (more f).map (node :: ·) := by
      intro first more
      cases first <;> rfl
    rw [hsplit]
    apply Follows.bind (one frame child finished hnode hchild hin)
    intro finished
    exact ih hnode hdrop hinside

/-- Looking at the next successor. The induction is on the fuel, of which there is enough for every
node that is not on the path. -/
theorem visit_follows (closed : ∀ n ∈ nodes, edges n ⊆ nodes)
    (hchild : frame.successors[frame.next]? = some child) (hin : child ∈ nodes)
    (hpath : (frame :: below).map Frame.node ⊆ nodes)
    (nodup : ((frame :: below).map Frame.node).Nodup)
    (hfuel : nodes.length < fuel + ((frame :: below).map Frame.node).length) :
    Follows edges (marked roots (frame :: below) finished)
      (visit edges fuel ((frame :: below).map Frame.node) finished child)
      (marked roots ({ frame with next := frame.next + 1 } :: below)) := by
  induction fuel generalizing frame below finished child with
  | zero =>
    have hlength := nodup.length_le_of_subset hpath
    omega
  | succ fuel ih =>
    by_cases hon : child ∈ (frame :: below).map Frame.node
    · rw [visit, if_pos hon]
      exact .stop (step_close hchild hon)
    · by_cases hdone : child ∈ finished
      · rw [visit, if_neg hon, if_pos hdone]
        exact .step (step_pass hchild hon hdone) .done
      · rw [visit_new hon hdone]
        apply Follows.step (step_descend hchild hon hdone)
        refine successors_follow ?_ rfl (List.drop_zero ..) (closed child hin) hon
        intro next grandchild finished hnode hnext hin'
        subst hnode
        refine ih hnext hin' (List.cons_subset.mpr ⟨hin, hpath⟩)
          (List.nodup_cons.mpr ⟨hon, nodup⟩) ?_
        simp only [List.map_cons, List.length_cons] at hfuel ⊢
        omega

/-- The roots, one after the other: one that is done is passed over, another is searched from. -/
theorem roots_follow (closed : ∀ n ∈ nodes, edges n ⊆ nodes) (inside : roots ⊆ nodes) :
    Follows edges (marked roots [] finished)
      (roots.foldlM (visit edges (nodes.length + 1) []) finished) (marked [] []) := by
  induction roots generalizing finished with
  | nil => exact .done
  | cons root roots ih =>
    obtain ⟨hin, hinside⟩ := List.cons_subset.mp inside
    rw [List.foldlM_cons]
    refine Follows.bind ?_ fun finished => ih hinside
    by_cases hdone : root ∈ finished
    · rw [visit, if_neg List.not_mem_nil, if_pos hdone]
      exact .step (step_skip hdone) .done
    · rw [visit_new List.not_mem_nil hdone]
      apply Follows.step (step_begin hdone)
      refine successors_follow ?_ rfl (List.drop_zero ..) (closed root hin) List.not_mem_nil
      intro frame child finished hnode hchild hin'
      subst hnode
      exact visit_follows closed hchild hin' (by simpa using hin) (List.nodup_singleton _)
        (by simp)

/-- The machine halts with what the recursive search gives. -/
theorem halts_findCycle (closed : ∀ n ∈ nodes, edges n ⊆ nodes) :
    Halts edges (start nodes) (findCycle nodes edges) := by
  have hroots : Follows edges (marked nodes [] [])
      (nodes.foldlM (visit edges (nodes.length + 1) []) []) (marked [] []) :=
    roots_follow closed fun _ h => h
  rw [start_eq, findCycle]
  cases hresult : nodes.foldlM (visit edges (nodes.length + 1) []) [] with
  | error closing =>
    rw [hresult] at hroots
    exact hroots
  | ok finished =>
    rw [hresult] at hroots
    exact hroots none (.stop step_end)

end Simulation

end Search

end LeastContext.Digraph

namespace LeastContext.Program

open LeastContext.Digraph

/-- What the search for a cycle along edges between the types of a program does: with a stack or by
recursion it comes to one answer, which is none if no type leads back to itself, and else a type
that does. -/
structure SearchesCycles (p : Program) (edges : TypeId → List TypeId) : Prop where
  halts : ∀ answer, Search.Halts edges (.start p.typeIds) answer ↔
    answer = findCycle p.typeIds edges
  none_iff : findCycle p.typeIds edges = none ↔
    ∀ id, id.index < p.types.size → ¬ Relation.TransGen (Edge edges) id id
  on_cycle : ∀ id, findCycle p.typeIds edges = some id →
    id.index < p.types.size ∧ Relation.TransGen (Edge edges) id id

theorem cycle_search_is_exact (p : Program) (edges : TypeId → List TypeId)
    (inside : ∀ a, a.index < p.types.size → ∀ b ∈ edges a, b.index < p.types.size) :
    p.SearchesCycles edges := by
  have closed : ∀ a ∈ p.typeIds, edges a ⊆ p.typeIds := by
    intro a ha b hb
    exact mem_typeIds.mpr (inside a (mem_typeIds.mp ha) b hb)
  have hcycle : ∀ id, findCycle p.typeIds edges = some id →
      id.index < p.types.size ∧ Relation.TransGen (Edge edges) id id := by
    intro id h
    exact ⟨mem_typeIds.mp (findCycle_mem closed h), findCycle_some h⟩
  refine ⟨?_, ?_, hcycle⟩
  · intro answer
    constructor
    · intro h
      exact h.unique (Search.halts_findCycle closed)
    · intro h
      rw [h]
      exact Search.halts_findCycle closed
  · constructor
    · intro h id hid
      exact (findCycle_none closed h id (mem_typeIds.mpr hid)).no_cycle
    · intro h
      cases hfound : findCycle p.typeIds edges with
      | none => rfl
      | some id =>
        obtain ⟨hid, cycle⟩ := hcycle id hfound
        exact absurd cycle (h id hid)

/-- An interface that embeds the named interface `B` twice, and one that embeds the first and then
itself. -/
def selfEmbedding : Program where
  package := ⟨0⟩
  packages := #[⟨"app", "app"⟩]
  types := #[
    .interface ⟨[], [⟨1⟩, ⟨1⟩]⟩,
    .named ⟨"B", some ⟨0⟩, ⟨2⟩, []⟩,
    .interface ⟨[], []⟩,
    .interface ⟨[], [⟨0⟩, ⟨3⟩]⟩]
  objects := #[]
  files := []

/-- The second edge to a node that is done and the edge to it from a later root are passed over; the
edge from a node to itself closes a cycle. -/
theorem selfEmbedding_searched :
    findCycle selfEmbedding.typeIds selfEmbedding.embeds = some ⟨3⟩ ∧
      (∀ a, a.index < selfEmbedding.types.size → ∀ b ∈ selfEmbedding.embeds a,
        b.index < selfEmbedding.types.size) ∧
      selfEmbedding.SearchesCycles selfEmbedding.embeds := by
  have inside : ∀ a ∈ selfEmbedding.typeIds, ∀ b ∈ selfEmbedding.embeds a,
      b.index < selfEmbedding.types.size := by
    decide
  have hinside : ∀ a, a.index < selfEmbedding.types.size → ∀ b ∈ selfEmbedding.embeds a,
      b.index < selfEmbedding.types.size :=
    fun a ha => inside a (mem_typeIds.mpr ha)
  exact ⟨by decide, hinside, cycle_search_is_exact selfEmbedding selfEmbedding.embeds hinside⟩

end LeastContext.Program

namespace LeastContext.Digraph

variable {α : Type} [DecidableEq α]

/-- Finishes a node that is neither on the path nor done, or gives the first node found to close a
cycle. The fuel bounds the length of the path. -/
def visit (edges : α → List α) : Nat → List α → List α → α → Except α (List α)
  | 0, _, done, _ => .ok done
  | fuel + 1, path, done, node =>
    if node ∈ path then .error node
    else if node ∈ done then .ok done
    else
      match (edges node).foldlM (visit edges fuel (node :: path)) done with
      | .error closing => .error closing
      | .ok done => .ok (node :: done)

/-- A node on a cycle, if the graph over these nodes has one. -/
def findCycle (nodes : List α) (edges : α → List α) : Option α :=
  match nodes.foldlM (visit edges (nodes.length + 1) []) [] with
  | .error closing => some closing
  | .ok _ => none

end LeastContext.Digraph

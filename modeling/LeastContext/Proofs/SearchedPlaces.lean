import LeastContext.Analysis.Collection
import LeastContext.Proofs.Lists
import LeastContext.Proofs.SyntaxParts
import Mathlib.Data.List.Basic

namespace LeastContext

/-- A type declaration, or a function type other than the signature of a function declaration or
literal. -/
inductive Node.Sealed : Node → Prop where
  | typeDecl {specs : List Spec} : Sealed (.genDecl ⟨.types, specs⟩)
  | funcType {signature : FuncType} {type : Option TypeId} :
      Sealed (.expr ⟨.funcType signature, type⟩)

/-- A part of a tree stands at a place, and nothing around it is sealed. -/
inductive Node.OpenAt : Node → List Nat → Node → Prop where
  | here {node : Node} : OpenAt node [] node
  | inside {node child part : Node} {i : Nat} {place : List Nat} :
      ¬ node.Sealed → node.children[i]? = some child → OpenAt child place part →
        OpenAt node (i :: place) part

/-- An identifier in a file declares an object, and nothing around it is sealed. The place begins
with the position of the file. -/
inductive Program.DeclaresAt (p : Program) (object : ObjectId) : List Nat → Prop where
  | ident {i : Nat} {file : SourceFile} {place : List Nat} {name : Ident} :
      p.files[i]? = some file → (Node.file file).OpenAt place (.ident name) →
        name.binding = some (.defines object) → DeclaresAt p object (i :: place)

namespace Node

theorem isSearched_iff {node : Node} : node.isSearched = true ↔ ¬ node.Sealed := by
  constructor
  · rintro h (_ | _) <;> simp [isSearched] at h
  · intro h
    unfold isSearched
    split
    · rename_i d
      obtain ⟨kind, specs⟩ := d
      rw [decide_eq_true_eq]
      rintro rfl
      exact h .typeDecl
    · exact absurd .funcType h
    · rfl

/-- What the search meets from a node on, with the places. -/
def searched (node : Node) : List (List Nat × Node) :=
  ([], node) ::
    if node.isSearched then
      placesFrom 0 (node.children.attach.map fun ⟨child, _⟩ => searched child)
    else []
termination_by sizeOf node
decreasing_by exact sizeOf_lt_of_mem_children ‹_›

theorem searched_eq (node : Node) : node.searched =
    ([], node) :: if node.isSearched then placesFrom 0 (node.children.map searched) else [] := by
  rw [searched]
  congr 3
  exact List.attach_map_val ..

theorem searched_nodes (node : Node) : node.searched.map (·.2) = node.walk isSearched := by
  induction node using treeInduction with
  | step node ih =>
    rw [searched_eq, walk_eq, List.map_cons]
    congr 1
    split
    · rw [map_placesFrom, List.flatMap_map]
      exact List.flatMap_congr ih
    · rfl

theorem searched_ascending (node : Node) : node.searched.Pairwise (·.1 < ·.1) := by
  induction node using treeInduction with
  | step node ih =>
    rw [searched_eq, List.pairwise_cons]
    split
    · constructor
      · rintro ⟨place, part⟩ h
        obtain ⟨i, rest, _, rfl, _, _⟩ := mem_placesFrom.mp h
        exact List.nil_lt_cons ..
      · apply placesFrom_ascending
        intro list hl
        obtain ⟨child, hc, rfl⟩ := List.mem_map.mp hl
        exact ih child hc
    · exact ⟨nofun, .nil⟩

/-- The search meets a part of a tree exactly if nothing around it is sealed. -/
theorem mem_searched {node part : Node} {place : List Nat} :
    (place, part) ∈ node.searched ↔ node.OpenAt place part := by
  induction node using treeInduction generalizing place with
  | step node ih =>
    rw [searched_eq, List.mem_cons]
    constructor
    · intro h
      rcases h with he | h
      · cases he
        exact .here
      · split at h
        · rename_i hsearched
          obtain ⟨i, rest, list, rfl, hlist, hmem⟩ := mem_placesFrom.mp h
          rw [List.getElem?_map, Option.map_eq_some_iff] at hlist
          obtain ⟨child, hchild, rfl⟩ := hlist
          rw [Nat.zero_add]
          exact .inside (isSearched_iff.mp hsearched) hchild
            ((ih child (List.mem_of_getElem? hchild)).mp hmem)
        · cases h
    · intro h
      cases h with
      | here => exact .inl rfl
      | @inside _ child _ i rest hopen hchild hpart =>
        rw [if_pos (isSearched_iff.mpr hopen), mem_placesFrom]
        refine .inr ⟨i, rest, child.searched, by rw [Nat.zero_add], ?_,
          (ih child (List.mem_of_getElem? hchild)).mpr hpart⟩
        rw [List.getElem?_map, hchild]
        rfl

end Node

namespace Program

variable {p : Program}

/-- The objects declared where variables are searched for, with the places. -/
def declarations (p : Program) : List (List Nat × ObjectId) :=
  (placesFrom 0 (p.files.map fun file => (Node.file file).searched)).filterMap fun x =>
    x.2.defined?.map (x.1, ·)

theorem declarations_objects (p : Program) : p.declarations.map (·.2) = p.declaredObjects := by
  have hnodes : (placesFrom 0 (p.files.map fun file => (Node.file file).searched)).map (·.2) =
      p.files.flatMap fun file => (Node.file file).walk Node.isSearched := by
    rw [map_placesFrom, List.flatMap_map]
    exact List.flatMap_congr fun file _ => Node.searched_nodes _
  rw [declarations, declaredObjects, ← List.filterMap_flatMap, ← hnodes, List.filterMap_map,
    List.map_filterMap]
  refine List.filterMap_congr ?_
  intro x _
  cases h : x.2.defined? <;> simp [h]

theorem declarations_ascending (p : Program) : p.declarations.Pairwise (·.1 < ·.1) := by
  have hplaces : (placesFrom 0 (p.files.map fun file => (Node.file file).searched)).Pairwise
      (·.1 < ·.1) := by
    apply placesFrom_ascending
    intro list hl
    obtain ⟨file, _, rfl⟩ := List.mem_map.mp hl
    exact Node.searched_ascending _
  refine List.Pairwise.filterMap _ ?_ hplaces
  intro a b hlt x hx y hy
  simp only [Option.map_eq_some_iff] at hx hy
  obtain ⟨_, _, rfl⟩ := hx
  obtain ⟨_, _, rfl⟩ := hy
  exact hlt

theorem defined?_eq_some {node : Node} {object : ObjectId} : node.defined? = some object ↔
    ∃ name : Ident, node = .ident name ∧ name.binding = some (.defines object) := by
  cases node with
  | ident name =>
    simp only [Node.defined?, Ident.defined?, Node.ident.injEq, exists_eq_left']
    split <;> simp_all
  | _ => simp [Node.defined?]

theorem mem_declarations {place : List Nat} {object : ObjectId} :
    (place, object) ∈ p.declarations ↔ p.DeclaresAt object place := by
  simp only [declarations, List.mem_filterMap, Option.map_eq_some_iff, Prod.exists]
  constructor
  · intro h
    obtain ⟨_, node, hmem, _, hdefined, he⟩ := h
    cases he
    obtain ⟨name, rfl, hbinding⟩ := defined?_eq_some.mp hdefined
    obtain ⟨i, rest, list, rfl, hlist, hmem⟩ := mem_placesFrom.mp hmem
    rw [List.getElem?_map, Option.map_eq_some_iff] at hlist
    obtain ⟨file, hfile, rfl⟩ := hlist
    rw [Nat.zero_add]
    exact .ident hfile (Node.mem_searched.mp hmem) hbinding
  · intro h
    cases h with
    | @ident i file rest name hfile hopen hbinding =>
      refine ⟨_, .ident name, mem_placesFrom.mpr ⟨i, rest, _, by rw [Nat.zero_add], ?_,
        Node.mem_searched.mpr hopen⟩, object, defined?_eq_some.mpr ⟨name, rfl, hbinding⟩, rfl⟩
      rw [List.getElem?_map, hfile]
      rfl

theorem mem_declaredObjects {object : ObjectId} :
    object ∈ p.declaredObjects ↔ ∃ place, p.DeclaresAt object place := by
  simp only [← declarations_objects, List.mem_map, Prod.exists, exists_eq_right, mem_declarations]

end Program

end LeastContext

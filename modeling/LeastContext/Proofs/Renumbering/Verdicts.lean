import LeastContext.Analysis.Collection
import LeastContext.Proofs.Lists
import LeastContext.Proofs.Renumbering.Methods
import LeastContext.Proofs.TrackedRecords

namespace LeastContext

/-- Names come out sorted the same from any order. -/
theorem sortedNames_perm {names names' : List String} (perm : names'.Perm names) :
    names'.mergeSort (fun a b => a ≤ b) = names.mergeSort fun a b => a ≤ b := by
  have trans : ∀ a b c : String, decide (a ≤ b) = true → decide (b ≤ c) = true →
      decide (a ≤ c) = true := by
    intro a b c hab hbc
    simp only [decide_eq_true_eq] at hab hbc ⊢
    exact le_trans hab hbc
  have total : ∀ a b : String, (decide (a ≤ b) || decide (b ≤ a)) = true := by
    intro a b
    simpa using le_total a b
  have sorted := List.pairwise_mergeSort trans total
  refine List.Perm.eq_of_pairwise ?_ (sorted names') (sorted names) ?_
  · intro a b _ _ hab hba
    simp only [decide_eq_true_eq] at hab hba
    exact le_antisymm hab hba
  · exact (List.mergeSort_perm _ _).trans (perm.trans (List.mergeSort_perm _ _).symm)

section States

variable (r : TypeId → TypeId)

def Nameable.mapTypes : Nameable → Nameable
  | .type id => .type (r id)
  | .methods id => .methods (r id)

def Request.mapTypes (request : Request) : Request :=
  { request with declared := r request.declared, named := request.named.map r }

@[simp]
theorem Request.declared_mapTypes (request : Request) :
    (request.mapTypes r).declared = r request.declared := rfl

@[simp]
theorem Request.home_mapTypes (request : Request) : (request.mapTypes r).home = request.home := rfl

/-- A record with the same uses, the types in any order. -/
structure Usage.Renames (usage usage' : Usage) : Prop where
  interfaces : usage'.interfaces.Perm (usage.interfaces.map r)
  methods : usage'.methods = usage.methods
  cached : usage'.cached = usage.cached

theorem Interface.declares_mapTypes (body : Interface) (method : String) :
    (body.mapTypes r).declares method = body.declares method := by
  rw [Interface.declares, Interface.mapTypes, List.any_map]
  rfl

end States

/-- Which problem is told depends on the lists of types only in whether they are empty. -/
theorem Problems.primary_names {a b : Problems} {names names' : List TypeId → List String}
    (allUnused : b.allUnused = a.allUnused) (cached : b.cached = a.cached)
    (unused : b.unused.isEmpty = a.unused.isEmpty)
    (unrequested : b.unrequested.isEmpty = a.unrequested.isEmpty)
    (noNames : names' [] = names []) (unusedNames : names' b.unused = names a.unused)
    (unrequestedNames : names' b.unrequested = names a.unrequested) :
    b.primary.map (fun problem => (problem.1, names' problem.2)) =
      a.primary.map fun problem => (problem.1, names problem.2) := by
  unfold Problems.primary
  rw [allUnused, cached, unused, unrequested]
  split_ifs <;> simp [noNames, unusedNames, unrequestedNames]

namespace Program.Renames

variable {r : TypeId → TypeId} {p p' : Program} (h : Renames r p p')
include h

theorem embedWalkWithin {stop stop' : TypeId → Bool} (same : ∀ id, stop' (r id) = stop id)
    (depth : Nat) (id : TypeId) :
    p'.embedWalkWithin stop' depth (r id) = (p.embedWalkWithin stop depth id).map r := by
  induction depth generalizing id with
  | zero => rfl
  | succ depth ih =>
    rw [Program.embedWalkWithin_succ, Program.embedWalkWithin_succ]
    rw [same, h.embeds]
    split
    · rfl
    · simp [List.flatMap_map, List.map_flatMap, ih]

theorem embedWalk {stop stop' : TypeId → Bool} (same : ∀ id, stop' (r id) = stop id)
    (id : TypeId) : p'.embedWalk stop' (r id) = (p.embedWalk stop id).map r := by
  rw [Program.embedWalk_def, Program.embedWalk_def]
  rw [h.size, h.embedWalkWithin same]

/-- The types met on a walk that have some property. -/
theorem chosen {stop stop' keep keep' : TypeId → Bool} (same : ∀ id, stop' (r id) = stop id)
    (kept : ∀ id, keep' (r id) = keep id) (id : TypeId) :
    ((p'.embedWalk stop' (r id)).filter keep').eraseDups =
      ((p.embedWalk stop id).filter keep).eraseDups.map r := by
  rw [h.embedWalk same, List.filter_map, ← eraseDups_map h.injective]
  simp [Function.comp_def, kept]

theorem isContextWithin (path name : String) (depth : Nat) (id : TypeId) :
    p'.isContextWithin path name depth (r id) = p.isContextWithin path name depth id := by
  induction depth generalizing id with
  | zero => rfl
  | succ depth ih =>
    rw [Program.isContextWithin_succ, Program.isContextWithin_succ]
    simp only [h.isType, h.embeds, List.any_map, Function.comp_def, ih]

theorem isForeign (home : Option PackageId) (id : TypeId) :
    p'.isForeign home (r id) = p.isForeign home id := by
  rw [Program.isForeign_def, Program.isForeign_def]
  rw [h.named?]
  cases p.named? id <;> rfl

theorem isRequestable (home : Option PackageId) (id : TypeId) :
    p'.isRequestable home (r id) = p.isRequestable home id := by
  rw [Program.isRequestable_def, Program.isRequestable_def]
  rw [h.named?, h.isInterface]
  cases p.named? id <;> rfl

theorem explicitComposition (home : Option PackageId) (id : TypeId) :
    p'.explicitComposition home (r id) = (p.explicitComposition home id).map r := by
  rw [Program.explicitComposition_def, Program.explicitComposition_def]
  exact h.chosen (h.isForeign home) (h.isRequestable home) id

theorem declaresMethods (id : TypeId) : p'.declaresMethods (r id) = p.declaresMethods id := by
  rw [Program.declaresMethods_def, Program.declaresMethods_def]
  rw [h.interface?]
  cases p.interface? id with
  | none => rfl
  | some body => simp [Interface.mapTypes]

theorem leafGroups (id : TypeId) : p'.leafGroups (r id) = (p.leafGroups id).map r := by
  rw [Program.leafGroups_def, Program.leafGroups_def]
  exact h.chosen h.declaresMethods h.declaresMethods id

theorem declares (method : String) (id : TypeId) :
    p'.declares method (r id) = p.declares method id := by
  rw [Program.declares_def, Program.declares_def]
  rw [h.interface?]
  cases p.interface? id with
  | none => rfl
  | some body => exact body.declares_mapTypes r method

theorem explicitlyContaining (method : String) (id : TypeId) :
    p'.explicitlyContaining method (r id) = (p.explicitlyContaining method id).map r := by
  rw [Program.explicitlyContaining_def, Program.explicitlyContaining_def]
  exact h.chosen (fun _ => rfl) (h.declares method) id

theorem isCapable (settings : Settings) (id : TypeId) :
    p'.isCapable settings (r id) = p.isCapable settings id := by
  simp only [Program.isCapable_def, Program.isContext_def, Program.isBase_def]
  rw [h.size, h.isContextWithin, h.leafGroups]
  rcases p.leafGroups id with _ | ⟨only, _ | ⟨other, more⟩⟩ <;> simp [h.isType]

theorem isTrackable (settings : Settings) (id : ObjectId) :
    p'.isTrackable settings id = p.isTrackable settings id := by
  have hvariable : ((p.object id).mapTypes r).isVariable = (p.object id).isVariable := by
    unfold Object.isVariable Object.mapTypes
    cases (p.object id).kind <;> rfl
  rw [Program.isTrackable_def, Program.isTrackable_def]
  simp only [h.object, hvariable]
  cases htype : (p.object id).type <;> simp [Object.mapTypes, htype, h.isCapable]

theorem expandWithin (home : Option PackageId) (depth : Nat) (id : TypeId) :
    p'.expandWithin home depth (r id) =
      (p.expandWithin home depth id).map (Nameable.mapTypes r) := by
  induction depth generalizing id with
  | zero => rfl
  | succ depth ih =>
    have hnameable : p'.isNameable home (r id) = p.isNameable home id := by
      rw [Program.isNameable_def, Program.isNameable_def]
      rw [h.named?]
      cases p.named? id <;> rfl
    rw [Program.expandWithin_succ, Program.expandWithin_succ]
    rw [h.interface?, hnameable]
    cases p.interface? id with
    | none => rfl
    | some body =>
      simp only [Option.map_some, Interface.mapTypes, List.isEmpty_map, List.flatMap_map, ih]
      split
      · rfl
      · rw [List.map_append, List.map_flatMap]
        split <;> rfl

theorem shortName (home : Option PackageId) (item : Nameable) :
    p'.shortName home (item.mapTypes r) = p.shortName home item := by
  cases item with
  | type id => exact h.render _ id
  | methods id =>
    rw [Nameable.mapTypes, Program.shortName_methods, Program.shortName_methods, h.interface?]
    cases p.interface? id with
    | none => exact h.render _ id
    | some body => exact h.renderBody (h.render _) { body with embeds := [] }

/-- The names in a finding depend neither on the handles of the types nor on their order. -/
theorem nameList (home : Option PackageId) {ids ids' : List TypeId} (perm : ids'.Perm (ids.map r)) :
    p'.nameList home ids' = p.nameList home ids := by
  have hexpand : ∀ id, (p'.expand home (r id)).map (p'.shortName home) =
      (p.expand home id).map (p.shortName home) := by
    intro id
    rw [Program.expand_def, Program.expand_def]
    rw [h.size, h.expandWithin, List.map_map]
    apply List.map_congr_left
    intro item _
    exact h.shortName home item
  have hnames : ((ids'.flatMap (p'.expand home)).map (p'.shortName home)).Perm
      ((ids.flatMap (p.expand home)).map (p.shortName home)) := by
    refine ((perm.flatMap_right _).map _).trans (.of_eq ?_)
    rw [List.flatMap_map, List.map_flatMap, List.map_flatMap]
    simp only [hexpand]
  rw [Program.nameList_def, Program.nameList_def]
  simp only [sortedNames_perm hnames]

theorem request? (id : ObjectId) : p'.request? id = (p.request? id).map (Request.mapTypes r) := by
  rw [Program.request?_def, Program.request?_def]
  rw [h.object]
  cases htype : (p.object id).type with
  | none => simp [Object.mapTypes, htype]
  | some type => simp [Object.mapTypes, htype, Request.mapTypes, h.explicitComposition]

theorem isUsed {usage usage' : Usage} (hu : usage.Renames r usage') (leaf : TypeId) :
    p'.isUsed usage' (r leaf) = p.isUsed usage leaf := by
  rw [Program.isUsed_def, Program.isUsed_def]
  rw [h.interface?]
  cases p.interface? leaf with
  | none => rfl
  | some body =>
    simp only [Option.map_some, hu.interfaces.any_eq, List.any_map, Function.comp_def,
      h.implements, hu.methods]
    congr 2
    funext method
    exact body.declares_mapTypes r method

theorem namedParts (id : TypeId) : p'.namedParts (r id) = (p.namedParts id).map r := by
  rw [Program.namedParts_def, Program.namedParts_def]
  rw [h.named?]
  cases p.named? id with
  | none => rfl
  | some decl =>
    simp only [Option.map_some, NamedType.mapTypes, h.explicitComposition, List.filter_map,
      Function.comp_def, ne_eq, h.injective.eq_iff]

theorem isInlineWithMethods (id : TypeId) :
    p'.isInlineWithMethods (r id) = p.isInlineWithMethods id := by
  rw [Program.isInlineWithMethods_def, Program.isInlineWithMethods_def]
  rw [h.form]
  cases p.form id <;> simp [TypeForm.mapTypes, Interface.mapTypes]

theorem isRequestedWithin (request : Request) (depth : Nat) (id : TypeId) :
    p'.isRequestedWithin (request.mapTypes r) depth (r id) =
      p.isRequestedWithin request depth id := by
  induction depth generalizing id with
  | zero => rfl
  | succ depth ih =>
    have hnamed : decide (r id ∈ (request.mapTypes r).named) = decide (id ∈ request.named) :=
      decide_eq_decide.mpr h.mem_map
    rw [Program.isRequestedWithin_succ, Program.isRequestedWithin_succ]
    rw [h.isInterface, h.isInlineWithMethods, h.namedParts, hnamed]
    simp only [Request.declared_mapTypes, h.implements]
    cases p.namedParts id with
    | nil => rfl
    | cons part parts => simp [ih, Function.comp_def]

theorem isRequested (request : Request) (id : TypeId) :
    p'.isRequested (request.mapTypes r) (r id) = p.isRequested request id := by
  rw [Program.isRequested_def, Program.isRequested_def]
  rw [h.size, h.isRequestedWithin]

theorem isMethodRequested (request : Request) (method : String) :
    p'.isMethodRequested (request.mapTypes r) method = p.isMethodRequested request method := by
  rw [Program.isMethodRequested_def, Program.isMethodRequested_def]
  simp only [Request.declared_mapTypes, h.explicitlyContaining, List.any_map, Function.comp_def,
    h.isRequested]

theorem unusedGroups (request : Request) {usage usage' : Usage} (hu : usage.Renames r usage') :
    p'.unusedGroups (request.mapTypes r) usage' = (p.unusedGroups request usage).map r := by
  rw [Program.unusedGroups_def, Program.unusedGroups_def]
  simp only [Request.declared_mapTypes, h.leafGroups, List.filter_map, Function.comp_def,
    h.isUsed hu]

theorem unrequestedUses (request : Request) {usage usage' : Usage}
    (hu : usage.Renames r usage') :
    (p'.unrequestedUses (request.mapTypes r) usage').Perm
      ((p.unrequestedUses request usage).map r) := by
  rw [Program.unrequestedUses_def, Program.unrequestedUses_def]
  rw [List.map_append]
  refine List.Perm.append ?_ (.of_eq ?_)
  · refine (hu.interfaces.flatMap_right _).trans (.of_eq ?_)
    simp only [List.flatMap_map, List.map_flatMap, Request.home_mapTypes, h.explicitComposition,
      List.filter_map, Function.comp_def, h.isRequested]
  · rw [hu.methods, List.map_flatMap]
    congr 1
    funext method
    rw [h.isMethodRequested, Request.declared_mapTypes, h.explicitlyContaining]
    split <;> rfl

/-- The problem to report is of the same kind, and about types with the same names. -/
theorem primary (home : Option PackageId) (request : Request) {usage usage' : Usage}
    (hu : usage.Renames r usage') :
    (p'.problems (request.mapTypes r) usage').primary.map
        (fun problem => (problem.1, p'.nameList home problem.2)) =
      (p.problems request usage).primary.map
        fun problem => (problem.1, p.nameList home problem.2) := by
  have hunused := h.unusedGroups request hu
  have hperm := h.unrequestedUses request hu
  refine Problems.primary_names ?_ hu.cached ?_ ?_ (h.nameList home .nil)
    (h.nameList home (.of_eq hunused)) (h.nameList home hperm)
  · simp only [Program.problems_def, Request.declared_mapTypes, h.leafGroups, hunused,
      List.isEmpty_map, List.length_map]
  · rw [Program.problems_def, Program.problems_def, hunused, List.isEmpty_map]
  · rw [Program.problems_def, Program.problems_def, Bool.eq_iff_iff,
      List.isEmpty_iff_length_eq_zero, List.isEmpty_iff_length_eq_zero, hperm.length_eq,
      List.length_map]

end Program.Renames

end LeastContext

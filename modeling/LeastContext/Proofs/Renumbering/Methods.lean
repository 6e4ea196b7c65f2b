import LeastContext.Proofs.Comparison
import LeastContext.Proofs.Lists
import LeastContext.Proofs.Renumbering.Types
import Mathlib.Data.List.Basic

namespace LeastContext

section States

variable (r : TypeId → TypeId)

def Method.mapTypes (method : Method) : Method :=
  { method with signature := r method.signature }

def Flattening.mapTypes (state : Flattening) : Flattening where
  visited := state.visited.map r
  methods := state.methods.map (Method.mapTypes r)

def Candidate.mapTypes (candidate : Candidate) : Candidate :=
  { candidate with method := candidate.method.mapTypes r }

def Reached.mapTypes (reached : Reached) : Reached :=
  { reached with type := r reached.type }

def LevelScan.mapTypes (level : LevelScan) : LevelScan where
  seen := level.seen.map r
  found := level.found.map (Candidate.mapTypes r)
  next := level.next.map (Reached.mapTypes r)

theorem Method.addNew_mapTypes (methods more : List Method) :
    addNew (methods.map (Method.mapTypes r)) (more.map (Method.mapTypes r)) =
      (addNew methods more).map (Method.mapTypes r) := by
  induction more generalizing methods with
  | nil => rfl
  | cons method more ih =>
    have hmet : (methods.map (Method.mapTypes r)).any (·.key = (method.mapTypes r).key) =
        methods.any (·.key = method.key) := by
      rw [List.any_map]
      rfl
    rw [List.map_cons, addNew, addNew, hmet]
    split
    · exact ih methods
    · rw [← ih, List.map_append]
      rfl

theorem Candidate.add_mapTypes (candidates : List Candidate) (method : Method) :
    add (candidates.map (Candidate.mapTypes r)) (method.mapTypes r) =
      (add candidates method).map (Candidate.mapTypes r) := by
  induction candidates with
  | nil => rfl
  | cons candidate more ih =>
    rw [List.map_cons, add, add, ih]
    by_cases hkey : candidate.method.key = method.key
    · simp [hkey, Candidate.mapTypes, Method.mapTypes]
    · simp [hkey, Candidate.mapTypes, Method.mapTypes]

theorem Candidate.addAll_mapTypes (methods : List Method) (candidates : List Candidate) :
    (methods.map (Method.mapTypes r)).foldl add (candidates.map (Candidate.mapTypes r)) =
      (methods.foldl add candidates).map (Candidate.mapTypes r) := by
  induction methods generalizing candidates with
  | nil => rfl
  | cons method methods ih => rw [List.map_cons, List.foldl_cons, List.foldl_cons, add_mapTypes, ih]

end States

namespace Program.Renames

variable {r : TypeId → TypeId} {p p' : Program} (h : Renames r p p')
include h

theorem mem_map {id : TypeId} {ids : List TypeId} : r id ∈ ids.map r ↔ id ∈ ids :=
  List.mem_map_of_injective h.injective

theorem flattenWithin (depth : Nat) (state : Flattening) (id : TypeId) :
    p'.flattenWithin depth (state.mapTypes r) (r id) =
      (p.flattenWithin depth state id).mapTypes r := by
  induction depth generalizing state id with
  | zero => rfl
  | succ depth ih =>
    have hembeds : ∀ (ids : List TypeId) (state : Flattening),
        (ids.map r).foldl (p'.flattenWithin depth) (state.mapTypes r) =
          (ids.foldl (p.flattenWithin depth) state).mapTypes r := by
      intro ids
      induction ids with
      | nil => exact fun _ => rfl
      | cons id ids hrest =>
        intro state
        rw [List.map_cons, List.foldl_cons, List.foldl_cons, ih, hrest]
    rw [Program.flattenWithin_succ, Program.flattenWithin_succ]
    by_cases hvisited : id ∈ state.visited
    · have hvisited' : r id ∈ (state.mapTypes r).visited := h.mem_map.mpr hvisited
      rw [if_pos hvisited, if_pos hvisited']
    · have hvisited' : r id ∉ (state.mapTypes r).visited := mt h.mem_map.mp hvisited
      rw [if_neg hvisited, if_neg hvisited', h.interface?]
      cases p.interface? id with
      | none => rfl
      | some body =>
        have hstep : (⟨r id :: (state.mapTypes r).visited,
            Method.addNew (state.mapTypes r).methods
              ((body.mapTypes r).methods.map fun m => ⟨m.key, m.signature⟩)⟩ : Flattening) =
            Flattening.mapTypes r ⟨id :: state.visited,
              Method.addNew state.methods (body.methods.map fun m => ⟨m.key, m.signature⟩)⟩ := by
          simp only [Flattening.mapTypes, Interface.mapTypes, ← Method.addNew_mapTypes,
            List.map_map, List.map_cons]
          rfl
        refine Eq.trans ?_ (hembeds body.embeds _)
        exact congrArg ((body.embeds.map r).foldl (p'.flattenWithin depth)) hstep

theorem interfaceMethods (id : TypeId) :
    p'.interfaceMethods (r id) = (p.interfaceMethods id).map (Method.mapTypes r) := by
  have hflat := h.flattenWithin (p.types.size + 1) ⟨[], []⟩ id
  rw [Program.interfaceMethods_def, Program.interfaceMethods_def]
  rw [h.size]
  exact congrArg Flattening.methods hflat

theorem declaredMethods (id : TypeId) (pointerReceivers : Bool) :
    p'.declaredMethods (r id) pointerReceivers =
      (p.declaredMethods id pointerReceivers).map (Method.mapTypes r) := by
  rw [Program.declaredMethods_def, Program.declaredMethods_def]
  rw [h.form]
  cases p.form id with
  | named decl =>
    simp only [TypeForm.mapTypes, NamedType.mapTypes, List.map_filterMap, h.object,
      Object.mapTypes, Option.map_map]
    rfl
  | _ => rfl

theorem ownMethods (reached : Reached) :
    p'.ownMethods (reached.mapTypes r) = (p.ownMethods reached).map (Method.mapTypes r) := by
  rw [Program.ownMethods_def, Program.ownMethods_def]
  simp only [Reached.mapTypes, h.isInterface, h.interfaceMethods, h.declaredMethods]
  split <;> rfl

theorem embeddedFields (reached : Reached) :
    p'.embeddedFields (reached.mapTypes r) =
      (p.embeddedFields reached).map (Reached.mapTypes r) := by
  rw [Program.embeddedFields_def, Program.embeddedFields_def]
  simp only [Reached.mapTypes, h.underlying, h.form]
  cases p.form (p.underlying reached.type) with
  | struct fields =>
    simp only [TypeForm.mapTypes, List.filter_map, List.map_map]
    apply List.map_congr_left
    intro field _
    simp only [Function.comp_apply, StructField.mapTypes, h.form]
    cases p.form field.type <;> rfl
  | _ => rfl

theorem scan (level : LevelScan) (reached : Reached) :
    p'.scan (level.mapTypes r) (reached.mapTypes r) = (p.scan level reached).mapTypes r := by
  rw [Program.scan_def, Program.scan_def]
  by_cases hseen : reached.type ∈ level.seen
  · have hseen' : (reached.mapTypes r).type ∈ (level.mapTypes r).seen := h.mem_map.mpr hseen
    rw [if_pos hseen, if_pos hseen']
  · have hseen' : (reached.mapTypes r).type ∉ (level.mapTypes r).seen := mt h.mem_map.mp hseen
    rw [if_neg hseen, if_neg hseen', h.ownMethods, h.embeddedFields]
    simp [LevelScan.mapTypes, Reached.mapTypes, Candidate.addAll_mapTypes]

theorem scanAll (reached : List Reached) (level : LevelScan) :
    (reached.map (Reached.mapTypes r)).foldl p'.scan (level.mapTypes r) =
      (reached.foldl p.scan level).mapTypes r := by
  induction reached generalizing level with
  | nil => rfl
  | cons first reached ih => rw [List.map_cons, List.foldl_cons, List.foldl_cons, h.scan, ih]

theorem promoteWithin (depth : Nat) (seen : List TypeId) (hidden : List MethodKey)
    (level : List Reached) :
    p'.promoteWithin depth (seen.map r) hidden (level.map (Reached.mapTypes r)) =
      (p.promoteWithin depth seen hidden level).map (Method.mapTypes r) := by
  induction depth generalizing seen hidden level with
  | zero =>
    rw [Program.promoteWithin_zero, Program.promoteWithin_zero]
    rfl
  | succ depth ih =>
    have hscan : (level.map (Reached.mapTypes r)).foldl p'.scan ⟨seen.map r, [], []⟩ =
        (level.foldl p.scan ⟨seen, [], []⟩).mapTypes r :=
      h.scanAll level ⟨seen, [], []⟩
    rw [Program.promoteWithin_succ, Program.promoteWithin_succ, hscan]
    generalize level.foldl p.scan ⟨seen, [], []⟩ = result
    simp only [LevelScan.mapTypes, List.map_append, ← ih, List.filter_map, List.map_map]
    rfl

theorem promotedMethods (id : TypeId) (addressable : Bool) :
    p'.promotedMethods (r id) addressable =
      (p.promotedMethods id addressable).map (Method.mapTypes r) := by
  rw [Program.promotedMethods_def, Program.promotedMethods_def]
  rw [h.size]
  exact h.promoteWithin (p.types.size + 1) [] [] [⟨id, addressable⟩]

theorem methodSet (id : TypeId) :
    p'.methodSet (r id) = (p.methodSet id).map (Method.mapTypes r) := by
  rw [Program.methodSet_def, Program.methodSet_def]
  rw [h.isInterface, h.interfaceMethods, h.form]
  split
  · rfl
  · cases p.form id <;> simp [TypeForm.mapTypes, h.promotedMethods]

theorem identicalWithin (depth : Nat) (a b : TypeId) :
    p'.identicalWithin depth (r a) (r b) = p.identicalWithin depth a b := by
  induction depth generalizing a b with
  | zero => rfl
  | succ depth ih =>
    rw [Program.identicalWithin_next, Program.identicalWithin_next]
    simp only [h.injective.eq_iff, h.form]
    by_cases hab : a = b
    · simp [hab]
    · rw [if_neg hab, if_neg hab]
      cases p.form a with
      | basic x => cases p.form b <;> rfl
      | named x => rfl
      | pointer x =>
        cases p.form b with
        | pointer y => exact ih x y
        | _ => rfl
      | slice x =>
        cases p.form b with
        | slice y => exact ih x y
        | _ => rfl
      | array m x =>
        cases p.form b with
        | array n y => simp [TypeForm.mapTypes, ih]
        | _ => rfl
      | map k x =>
        cases p.form b with
        | map l y => simp [TypeForm.mapTypes, ih]
        | _ => rfl
      | signature s =>
        cases p.form b with
        | signature t =>
          simp only [TypeForm.mapTypes, Signature.mapTypes, List.length_map]
          congr 1
          have hparts : ∀ sig : Signature,
              (sig.params.map (Param.mapTypes r)).map (·.type) ++ sig.results.map r =
                (sig.params.map (·.type) ++ sig.results).map r := by
            simp [Function.comp_def, Param.mapTypes]
          rw [hparts, hparts, List.zip_map, allM_map]
          simp [ih]
        | _ => rfl
      | struct fs =>
        cases p.form b with
        | struct gs =>
          simp only [TypeForm.mapTypes, List.length_map, List.zip_map, allM_map, Prod.map,
            StructField.mapTypes, ih]
        | _ => rfl
      | interface body =>
        cases p.form b with
        | interface other =>
          simp only [TypeForm.mapTypes, h.interfaceMethods, List.length_map, allM_map, anyM_map,
            Method.mapTypes, ih]
        | _ => rfl

theorem identical? (a b : TypeId) : p'.identical? (r a) (r b) = p.identical? a b := by
  rw [Program.identical?, Program.identical?, h.size, h.identicalWithin]

theorem identical (a b : TypeId) : p'.identical (r a) (r b) = p.identical a b := by
  rw [Program.identical_def, Program.identical_def, h.identical?]

theorem satisfies (methods : List Method) (interface : TypeId) :
    p'.satisfies (methods.map (Method.mapTypes r)) (r interface) =
      p.satisfies methods interface := by
  rw [Program.satisfies_def, Program.satisfies_def]
  rw [h.isInterface, h.interfaceMethods]
  simp only [List.all_map, List.any_map, Function.comp_def, Method.mapTypes, h.identical]
  rfl

theorem implements (id interface : TypeId) :
    p'.implements (r id) (r interface) = p.implements id interface := by
  rw [Program.implements_def, Program.implements_def]
  simp only [h.injective.eq_iff, h.isInterface, h.methodSet, h.satisfies]

theorem pointerImplements (named interface : TypeId) :
    p'.pointerImplements (r named) (r interface) = p.pointerImplements named interface := by
  rw [Program.pointerImplements_def, Program.pointerImplements_def]
  rw [h.promotedMethods, h.satisfies]

end Program.Renames

end LeastContext

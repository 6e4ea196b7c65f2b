import LeastContext.Proofs.AnalysisHistory
import LeastContext.Proofs.SearchedPlaces
import LeastContext.Proofs.Strict.Pooling

namespace LeastContext

/-- The objects that are tracked, oldest variable first. -/
def Ledger.trackedObjects (ledger : Ledger) : List ObjectId :=
  ledger.active.map fun v => (ledger.variableAt v).object

/-- A variable or field that is not written as a blank. -/
structure Object.IsReferable (object : Object) : Prop where
  kind : object.kind = .variable ∨ object.kind = .field
  name : object.name ≠ "_"

namespace History

theorem tracks_tracked {objects : List ObjectId} {object : ObjectId} :
    tracks (objects.map Operation.track).reverse object = true ↔ object ∈ objects := by
  induction objects using List.reverseRecOn with
  | nil => simp [tracks]
  | append_singleton objects last ih =>
    simp only [List.map_append, List.map_singleton, List.reverse_append, List.reverse_singleton,
      List.singleton_append, tracks, Bool.or_eq_true, decide_eq_true_eq, ih, List.mem_append,
      List.mem_singleton]
    tauto

/-- Tracking one object after the other issues a variable where an object comes first. -/
theorem issued_tracked (objects : List ObjectId) :
    issued (objects.map Operation.track).reverse = objects.eraseDups := by
  induction objects using List.reverseRecOn with
  | nil => rfl
  | append_singleton objects last ih =>
    simp only [List.map_append, List.map_singleton, List.reverse_append, List.reverse_singleton,
      List.singleton_append, issued, tracks_tracked, ih, eraseDups_concat]

/-- Where nothing is ever untracked, all that was issued is current. -/
theorem current_tracked {objects : List ObjectId} {v : VarId}
    (h : Issued (objects.map Operation.track).reverse v) :
    Current (objects.map Operation.track).reverse v := by
  have hissued := issued_tracked objects
  have hnodup : (issued (objects.map Operation.track).reverse).Nodup := by
    rw [hissued]
    exact eraseDups_nodup objects
  obtain ⟨object, hobject⟩ : ∃ object,
      (issued (objects.map Operation.track).reverse)[v.index]? = some object :=
    ⟨_, List.getElem?_eq_getElem h⟩
  refine ⟨object, ⟨hobject, ?_⟩, ?_⟩
  · intro w hlt hw
    have heq := (List.getElem?_inj h hnodup).mp (hobject.trans hw.symm)
    omega
  · rw [tracks_tracked, ← List.mem_eraseDups, ← hissued]
    exact List.mem_of_getElem? hobject

end History

namespace Ledger

open History

/-- Tracking one object after the other leaves the objects in the order they came first. -/
theorem trackedObjects_of_tracks {ledger : Ledger} {objects : List ObjectId}
    (h : History.LeadsTo (objects.map .track).reverse ledger) :
    ledger.trackedObjects = objects.eraseDups := by
  have follows := h.follows
  have hactive : ledger.active = (List.range ledger.entries.size).map VarId.mk := by
    refine List.filter_eq_self.mpr ?_
    intro v hv
    obtain ⟨i, hi, rfl⟩ := List.mem_map.mp hv
    have here : ledger.Has ⟨i⟩ := List.mem_range.mp hi
    exact (follows.active _ here).mpr (current_tracked (follows.has_iff.mp here))
  rw [trackedObjects, hactive, List.map_map, ← issued_tracked]
  refine List.ext_getElem? ?_
  intro i
  by_cases hi : i < ledger.entries.size
  · have hobject := follows.object ⟨i⟩ hi
    simp only [List.getElem?_map, List.getElem?_range hi, Option.map_some, Function.comp]
    exact hobject.symm
  · have hlength := follows.size
    rw [List.getElem?_eq_none (by simpa using hi), List.getElem?_eq_none (by omega)]

end Ledger

namespace Program

variable {p : Program} {settings : Settings} {id : TypeId} {object : ObjectId}

theorem isContextWithin_eq {path name : String} {depth : Nat} :
    p.isContextWithin path name depth id =
      (p.embedWalkWithin (fun _ => false) depth id).any (p.isType · path name) := by
  induction depth generalizing id with
  | zero => rfl
  | succ depth ih =>
    have hbelow : p.isContextWithin path name depth = fun e =>
        (p.embedWalkWithin (fun _ => false) depth e).any (p.isType · path name) :=
      funext fun e => ih
    rw [isContextWithin_succ, embedWalkWithin_succ, hbelow]
    simp [List.any_flatMap]

/-- A type is a context if it is the base context or a chain of embeds leads there. -/
theorem isContext_iff (wf : p.WellFormed) :
    p.isContext settings.baseContext.path settings.baseContext.name id = true ↔
      ∃ base, Relation.ReflTransGen p.Embeds id base ∧ p.isBase settings base = true := by
  rw [isContext_def, isContextWithin_eq, List.any_eq_true]
  refine exists_congr fun base => and_congr_left' ?_
  exact (mem_embedWalk wf).trans enters_everything

/-- A variable whose capabilities are worth checking: its type is or embeds the base context, has
capability groups, and these are not the base context alone. -/
structure IsChecked (p : Program) (settings : Settings) (object : ObjectId) : Prop where
  referable : (p.object object).IsReferable
  type : ∃ id, (p.object object).type = some id ∧
    (∃ base, Relation.ReflTransGen p.Embeds id base ∧ p.isBase settings base = true) ∧
      p.leafGroups id ≠ [] ∧ ∀ only, p.leafGroups id = [only] → p.isBase settings only = false

theorem isCapable_iff (wf : p.WellFormed) : p.isCapable settings id = true ↔
    (∃ base, Relation.ReflTransGen p.Embeds id base ∧ p.isBase settings base = true) ∧
      p.leafGroups id ≠ [] ∧ ∀ only, p.leafGroups id = [only] → p.isBase settings only = false := by
  rw [isCapable_def, Bool.and_eq_true, isContext_iff wf]
  refine and_congr_right fun _ => ?_
  split <;> simp_all

theorem isTrackable_iff (wf : p.WellFormed) :
    p.isTrackable settings object = true ↔ p.IsChecked settings object := by
  have hkind : (p.object object).isVariable = true ↔
      (p.object object).kind = .variable ∨ (p.object object).kind = .field := by
    unfold Object.isVariable
    split <;> simp_all
  simp only [isTrackable_def, Bool.and_eq_true, bne_iff_ne, hkind, Option.any_eq_true,
    isCapable_iff wf]
  constructor
  · intro h
    exact ⟨⟨h.1.2, h.1.1⟩, h.2⟩
  · intro h
    exact ⟨⟨h.referable.name, h.referable.kind⟩, h.type⟩

theorem mem_typeIds_of_isBase (h : p.isBase settings id = true) : id ∈ p.typeIds := by
  cases hnamed : p.named? id with
  | none => simp [isBase_def, isType_def, hnamed] at h
  | some decl => simpa [mem_typeIds, resolves] using resolves_of_named hnamed

/-- A type that asks for a base context and for nothing else: the base context itself, or an
interface that declares no methods and embeds such types only. -/
inductive AsksOnlyFor (p : Program) (base : TypeId) : TypeId → Prop where
  | base : AsksOnlyFor p base base
  | embeds {id : TypeId} : p.declaresMethods id = false → (∃ e, p.Embeds id e) →
      (∀ e, p.Embeds id e → AsksOnlyFor p base e) → AsksOnlyFor p base id

namespace AsksOnlyFor

variable {base : TypeId}

theorem embeds_base (h : p.AsksOnlyFor base id) : Relation.ReflTransGen p.Embeds id base := by
  induction h with
  | base => exact .refl
  | embeds _ some _ ih =>
    obtain ⟨e, step⟩ := some
    exact .head step (ih e step)

/-- What such a type can be asked for is what the base context can be asked for. -/
theorem mem_leafGroups_iff (wf : p.WellFormed) (h : p.AsksOnlyFor base id) {x : TypeId} :
    x ∈ p.leafGroups id ↔ x ∈ p.leafGroups base := by
  induction h with
  | base => rfl
  | @embeds id bare some _ ih =>
    rw [mem_leafGroups_of_bare wf bare]
    constructor
    · rintro ⟨e, step, hx⟩
      exact (ih e step).mp hx
    · intro hx
      obtain ⟨e, step⟩ := some
      exact ⟨e, step, (ih e step).mpr hx⟩

/-- With methods of its own the base context is the only group of such a type. -/
theorem leafGroups_eq (wf : p.WellFormed) (h : p.AsksOnlyFor base id)
    (declares : p.declaresMethods base = true) : p.leafGroups id = [base] := by
  have hmem : ∀ x, x ∈ p.leafGroups id ↔ x ∈ [base] := by
    intro x
    rw [h.mem_leafGroups_iff wf, leafGroups_def, embedWalk_eq wf, if_pos declares]
    simp [declares, List.eraseDups_cons]
  have hnodup : (p.leafGroups id).Nodup := by
    rw [leafGroups_def]
    exact eraseDups_nodup _
  exact List.perm_singleton.mp
    ((List.perm_ext_iff_of_nodup hnodup (List.nodup_singleton base)).mpr hmem)

/-- A variable of such a type is left out unless all that the base context asks for lies below
it. -/
theorem isCapable_iff (wf : p.WellFormed) (h : p.AsksOnlyFor base id)
    (isBase : p.isBase settings base = true)
    (single : ∀ other, p.isBase settings other = true → other = base) :
    p.isCapable settings id = true ↔ p.declaresMethods base = false ∧
      ∃ x, Relation.ReflTransGen p.Embeds base x ∧ p.declaresMethods x = true := by
  rw [Program.isCapable_iff wf]
  constructor
  · rintro ⟨_, groups, more⟩
    obtain ⟨leaf, hleaf⟩ := List.exists_mem_of_ne_nil _ groups
    have hbelow := (h.mem_leafGroups_iff wf).mp hleaf
    refine ⟨?_, leaf, leafGroup_below wf hbelow, declaresMethods_of_mem_leafGroups hbelow⟩
    by_contra declares
    have hsingle := h.leafGroups_eq wf (by simpa using declares)
    simp [more base hsingle] at isBase
  · rintro ⟨bare, x, hx, declares⟩
    obtain ⟨leaf, hleaf, _⟩ := below_leafGroup wf hx declares
    have hgroup := (h.mem_leafGroups_iff wf).mpr hleaf
    refine ⟨⟨base, h.embeds_base, isBase⟩, List.ne_nil_of_mem hgroup, ?_⟩
    intro only honly
    -- a group declares methods, so the base context is none
    by_contra hbase
    obtain rfl := single only (by simpa using hbase)
    have := declaresMethods_of_mem_leafGroups (honly ▸ List.mem_singleton_self only)
    simp [bare] at this

end AsksOnlyFor

theorem trackedObjects_collect (p : Program) (settings : Settings) :
    (p.collect settings).trackedObjects =
      (p.declaredObjects.filter (p.isTrackable settings)).eraseDups :=
  Ledger.trackedObjects_of_tracks (p.collect_leadsTo settings)

theorem mem_trackedObjects (wf : p.WellFormed) : object ∈ (p.collect settings).trackedObjects ↔
    (∃ place, p.DeclaresAt object place) ∧ p.IsChecked settings object := by
  rw [trackedObjects_collect, List.mem_eraseDups, List.mem_filter, mem_declaredObjects,
    isTrackable_iff wf]

theorem trackedObjects_first (p : Program) (settings : Settings) :
    (p.collect settings).trackedObjects.Pairwise fun a b =>
      ∃ place, p.DeclaresAt a place ∧ ∀ other, p.DeclaresAt b other → place < other := by
  have hobjects : (p.collect settings).trackedObjects =
      ((p.declarations.filter fun x => p.isTrackable settings x.2).map (·.2)).eraseDups := by
    rw [trackedObjects_collect, ← declarations_objects, List.filter_map]
    rfl
  have hfirst := eraseDups_first
    (p.declarations_ascending.filter fun x => p.isTrackable settings x.2)
  rw [← hobjects] at hfirst
  refine hfirst.imp_of_mem ?_
  rintro a b _ hb ⟨place, ha, hbefore⟩
  refine ⟨place, mem_declarations.mp (List.mem_filter.mp ha).1, ?_⟩
  intro other hother
  rw [trackedObjects_collect, List.mem_eraseDups, List.mem_filter] at hb
  exact hbefore other (List.mem_filter.mpr ⟨mem_declarations.mpr hother, hb.2⟩)

/-- Collecting tracks the declared variables that are worth checking, each once and in the order of
their first declarations. A variable that asks for the base context alone is among them only if the
base context declares no methods itself and has some through its embeds. -/
theorem collecting_tracks_exactly_the_checked (p : Program) (valid : p.defect? = none)
    (settings : Settings) :
    p.collectM (m := Strict) settings = .ok (p.collect settings) ∧
      (p.collect settings).trackedObjects.Nodup ∧
      ((p.collect settings).trackedObjects.Pairwise fun a b =>
        ∃ place, p.DeclaresAt a place ∧ ∀ other, p.DeclaresAt b other → place < other) ∧
      (∀ object, object ∈ (p.collect settings).trackedObjects ↔
        (∃ place, p.DeclaresAt object place) ∧ p.IsChecked settings object) ∧
      ∀ object id base, (p.object object).type = some id → p.AsksOnlyFor base id →
        p.isBase settings base = true →
        (∀ other, p.isBase settings other = true → other = base) →
          (object ∈ (p.collect settings).trackedObjects ↔
            (∃ place, p.DeclaresAt object place) ∧ (p.object object).IsReferable ∧
              p.declaresMethods base = false ∧
                ∃ x, Relation.ReflTransGen p.Embeds base x ∧ p.declaresMethods x = true) := by
  have wf := WellFormed.of_defect? valid
  refine ⟨collectM_ok wf settings, ?_, p.trackedObjects_first settings,
    fun object => mem_trackedObjects wf, ?_⟩
  · rw [trackedObjects_collect]
    exact eraseDups_nodup _
  · intro object id base htype only isBase single
    rw [mem_trackedObjects wf, ← only.isCapable_iff wf isBase single, isCapable_iff wf]
    refine and_congr_right fun _ => ?_
    constructor
    · rintro ⟨referable, id', htype', checked⟩
      cases htype.symm.trans htype'
      exact ⟨referable, checked⟩
    · rintro ⟨referable, checked⟩
      exact ⟨referable, id, htype, checked⟩

/-- A package that declares `early` twice, first at top level, and a function with a parameter
`late`. In its body a local type declaration and the function type of an assertion declare contexts
of the same type, and the variables `bare` and `_` are declared. -/
def scatteredContexts : Program where
  package := ⟨0⟩
  packages := #[⟨"app", "app"⟩, ⟨"context", "context"⟩]
  types := #[
    .signature ⟨[], [], false⟩,
    .interface ⟨[⟨"Done", none, ⟨0⟩⟩], []⟩,
    .named ⟨"Context", some ⟨1⟩, ⟨1⟩, []⟩,
    .interface ⟨[⟨"Log", none, ⟨0⟩⟩], [⟨2⟩]⟩,
    .named ⟨"Logger", some ⟨0⟩, ⟨3⟩, []⟩]
  objects := #[
    ⟨"late", .variable, some ⟨0⟩, some ⟨4⟩, none⟩,
    ⟨"early", .variable, some ⟨0⟩, some ⟨4⟩, none⟩,
    ⟨"inDecl", .field, some ⟨0⟩, some ⟨4⟩, none⟩,
    ⟨"inType", .variable, some ⟨0⟩, some ⟨4⟩, none⟩,
    ⟨"bare", .variable, some ⟨0⟩, some ⟨2⟩, none⟩,
    ⟨"_", .variable, some ⟨0⟩, some ⟨4⟩, none⟩]
  files :=
    let name text binding : Ident := ⟨text, ⟨⟨0⟩, 0, 0⟩, binding⟩
    let declared text object : Ident := name text (some (.defines object))
    let logger : Expr := ⟨.ident (name "Logger" none), some ⟨4⟩⟩
    let value names : GenDecl := ⟨.variables, [.value names (some logger) []]⟩
    let record : Expr := ⟨.structType [⟨[declared "inDecl" ⟨2⟩], logger⟩], none⟩
    let callback : Expr := ⟨.funcType ⟨[⟨[declared "inType" ⟨3⟩], logger⟩], []⟩, none⟩
    let operand : Expr := ⟨.ident (name "x" none), none⟩
    [⟨⟨0⟩, "app.go", [
      .gen (value [declared "early" ⟨1⟩]),
      .func ⟨none, name "F" none, ⟨[⟨[declared "late" ⟨0⟩], logger⟩], []⟩, some ⟨[
        .decl ⟨.types, [.type (name "T" none) record]⟩,
        .expr ⟨.typeAssert operand (some callback), none⟩,
        .decl (value [declared "bare" ⟨4⟩, declared "_" ⟨5⟩, declared "early" ⟨1⟩])]⟩⟩]⟩]

theorem scatteredContexts_valid : scatteredContexts.defect? = none := by
  decide +kernel

theorem scatteredContexts_tracked :
    (scatteredContexts.collect .default).trackedObjects = [⟨1⟩, ⟨0⟩] := by
  decide +kernel

theorem scatteredContexts_single_base (other : TypeId)
    (h : scatteredContexts.isBase .default other = true) : other = ⟨2⟩ := by
  have only : ∀ id ∈ scatteredContexts.typeIds, scatteredContexts.isBase .default id = true →
      id = ⟨2⟩ := by
    decide +kernel
  exact only other (mem_typeIds_of_isBase h) h

/-- Of these only `early` and `late` are declared in the open and worth checking. The variable
`bare` is declared in the open too, but the base context that it asks for declares `Done`. -/
theorem scatteredContexts_collected :
    scatteredContexts.defect? = none ∧
      (∀ object, object ∈ [⟨1⟩, ⟨0⟩] ↔
        (∃ place, scatteredContexts.DeclaresAt object place) ∧
          scatteredContexts.IsChecked .default object) ∧
      ([⟨1⟩, ⟨0⟩].Pairwise fun a b => ∃ place, scatteredContexts.DeclaresAt a place ∧
        ∀ other, scatteredContexts.DeclaresAt b other → place < other) ∧
      (scatteredContexts.object ⟨4⟩).type = some ⟨2⟩ ∧
      scatteredContexts.isBase .default ⟨2⟩ = true ∧
      scatteredContexts.declaresMethods ⟨2⟩ = true ∧
      ⟨4⟩ ∉ (scatteredContexts.collect .default).trackedObjects := by
  obtain ⟨_, _, horder, hmembers, hbase⟩ :=
    collecting_tracks_exactly_the_checked scatteredContexts scatteredContexts_valid .default
  have hbare := hbase ⟨4⟩ ⟨2⟩ ⟨2⟩ (by decide) .base (by decide) scatteredContexts_single_base
  rw [scatteredContexts_tracked] at horder hmembers
  have hdeclares : scatteredContexts.declaresMethods ⟨2⟩ = true := by decide
  refine ⟨scatteredContexts_valid, hmembers, horder, by decide, by decide, hdeclares, ?_⟩
  intro tracked
  exact Bool.noConfusion (hdeclares.symm.trans (hbare.mp tracked).2.2.1)

/-- A package whose base context `Base = interface { context.Context }` takes its methods from
another interface, and a function with a parameter of type `Base`. -/
def derivedBase : Program where
  package := ⟨0⟩
  packages := #[⟨"example.com/kactx", "kactx"⟩, ⟨"context", "context"⟩]
  types := #[
    .signature ⟨[], [], false⟩,
    .interface ⟨[⟨"Done", none, ⟨0⟩⟩], []⟩,
    .named ⟨"Context", some ⟨1⟩, ⟨1⟩, []⟩,
    .interface ⟨[], [⟨2⟩]⟩,
    .named ⟨"Base", some ⟨0⟩, ⟨3⟩, []⟩]
  objects := #[⟨"ctx", .variable, some ⟨0⟩, some ⟨4⟩, none⟩]
  files :=
    let name text binding : Ident := ⟨text, ⟨⟨0⟩, 0, 0⟩, binding⟩
    let base : Expr := ⟨.ident (name "Base" none), some ⟨4⟩⟩
    [⟨⟨0⟩, "kactx.go", [
      .func ⟨none, name "F" none, ⟨[⟨[name "ctx" (some (.defines ⟨0⟩))], base⟩], []⟩, some ⟨[]⟩⟩]⟩]

/-- The parameter asks for the base context alone, and is tracked. -/
theorem derivedBase_tracked :
    let settings := { Settings.default with baseContext := ⟨"example.com/kactx", "Base"⟩ }
    derivedBase.defect? = none ∧ (derivedBase.object ⟨0⟩).type = some ⟨4⟩ ∧
      derivedBase.isBase settings ⟨4⟩ = true ∧ derivedBase.AsksOnlyFor ⟨4⟩ ⟨4⟩ ∧
      (derivedBase.collectM (m := Strict) settings).map Ledger.trackedObjects = .ok [⟨0⟩] :=
  ⟨by decide +kernel, by decide, by decide, .base, by decide +kernel⟩

end Program

end LeastContext

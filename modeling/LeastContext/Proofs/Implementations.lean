import LeastContext.Analysis.Pooling
import LeastContext.Proofs.PartWalks
import Mathlib.Data.List.Perm.Basic
import Mathlib.Data.Option.Basic

namespace LeastContext

section Groups

variable {κ α : Type}

/-- The values of groups, each with the key of its group. -/
def layOut (groups : List (κ × List α)) : List (κ × α) :=
  groups.flatMap fun group => group.2.map (group.1, ·)

theorem addToGroup_perm [DecidableEq κ] (key : κ) (value : α) (groups : List (κ × List α)) :
    (layOut (addToGroup key value groups)).Perm ((key, value) :: layOut groups) := by
  induction groups with
  | nil => exact .refl _
  | cons group groups ih =>
    obtain ⟨k, values⟩ := group
    rw [addToGroup]
    split
    · rename_i he
      subst he
      simp [layOut, List.perm_middle]
    · have hrest := (ih.append_left (values.map (k, ·))).trans List.perm_middle
      simpa [layOut] using hrest

theorem addToGroups_perm [DecidableEq κ] (pairs : List (κ × α)) (groups : List (κ × List α)) :
    (layOut (pairs.foldl (fun groups pair => addToGroup pair.1 pair.2 groups) groups)).Perm
      (pairs ++ layOut groups) := by
  induction pairs generalizing groups with
  | nil => exact .refl _
  | cons pair pairs ih =>
    have hone := (addToGroup_perm pair.1 pair.2 groups).append_left pairs
    exact (ih _).trans (hone.trans List.perm_middle)

/-- Choosing groups and then among their values is choosing among the values with their keys. -/
theorem filter_groups {β : Type} (chosen : κ → Bool) (f : α → Option β)
    (groups : List (κ × List α)) :
    (groups.filter fun group => chosen group.1).flatMap (fun group => group.2.filterMap f) =
      (layOut groups).filterMap fun pair => if chosen pair.1 then f pair.2 else none := by
  induction groups with
  | nil => rfl
  | cons group groups ih =>
    have hgroup : layOut (group :: groups) = group.2.map (group.1, ·) ++ layOut groups := by
      simp [layOut]
    rw [hgroup, List.filterMap_append, ← ih, List.filterMap_map]
    cases hc : chosen group.1 <;> simp [hc]

end Groups

namespace Program

/-- A method declaration whose receiver has a type, or points to it. -/
def IsMethodOf (p : Program) (decl : FuncDecl) (base : TypeId) : Prop :=
  ∃ fields field type, decl.receiver = some fields ∧ fields.head? = some field ∧
    field.type.type = some type ∧ p.PointsTo type base

/-- A variable is the tracked first parameter of a method declaration that implements the method of
an interface under some key. -/
structure Implementation (p : Program) (ledger : Ledger) (interface : TypeId) (key : MethodKey)
    (decl : FuncDecl) (v : VarId) : Prop where
  receiver : ∃ base, p.IsMethodOf decl base ∧ p.pointerImplements base interface = true
  name : ∃ object, decl.name.defined? = some object ∧ (p.object object).methodKey = key
  wanted : ∃ method ∈ p.interfaceMethods interface, method.key = key
  param : ∃ field name object, decl.signature.params.head? = some field ∧
    field.names.head? = some name ∧ name.defined? = some object ∧ ledger.lookup object = some v

/-- A type name of the analyzed package stands for an interface. -/
def NamesInterface (p : Program) (interface : TypeId) : Prop :=
  ∃ object ∈ p.objects, object.kind = .typeName ∧ object.package = some p.package ∧
    object.type = some interface ∧ p.isInterface interface = true

/-- Two variables are first parameters of implementations of one method of an interface. -/
def Siblings (p : Program) (ledger : Ledger) (v w : VarId) : Prop :=
  ∃ interface key first second, p.NamesInterface interface ∧
    .func first ∈ p.decls ∧ p.Implementation ledger interface key first v ∧
    .func second ∈ p.decls ∧ p.Implementation ledger interface key second w

open Classical in
/-- How many declarations implement the method of an interface under a key, with a tracked first
parameter. -/
noncomputable def implementations (p : Program) (ledger : Ledger) (interface : TypeId)
    (key : MethodKey) : Nat :=
  p.decls.countP fun decl => ∃ func v, decl = .func func ∧
    p.Implementation ledger interface key func v

variable {p : Program} {ledger : Ledger} {interface : TypeId}

theorem mem_packageInterfaces : interface ∈ p.packageInterfaces ↔ p.NamesInterface interface := by
  simp only [packageInterfaces_def, List.mem_filterMap, Array.mem_toList_iff, NamesInterface]
  refine exists_congr fun object => and_congr_right fun _ => ?_
  split
  · rename_i h
    simp [h, Option.filter_eq_some_iff]
  · rename_i h
    simp only [reduceCtorEq, false_iff]
    exact fun hn => h ⟨hn.1, hn.2.1⟩

/-- What a declaration adds to the implementations of an interface. -/
def implementation? (p : Program) (ledger : Ledger) (interface : TypeId) :
    Decl → Option (MethodKey × VarId)
  | .func decl => (p.receiverBase? decl).bind fun base =>
    if p.pointerImplements base interface then
      p.pooledParam? ledger ((p.interfaceMethods interface).map (·.key)) decl
    else none
  | .gen _ => none

theorem receivers_perm (p : Program) : (layOut p.receivers).Perm p.methodDecls := by
  have hperm : (layOut p.receivers).Perm (p.methodDecls ++ layOut []) := by
    rw [receivers_def]
    exact addToGroups_perm p.methodDecls []
  rwa [show layOut ([] : List (TypeId × List FuncDecl)) = [] from rfl, List.append_nil] at hperm

theorem siblings_perm (p : Program) (ledger : Ledger) (interface : TypeId) :
    (p.siblings ledger interface).Perm
      (p.decls.filterMap (p.implementation? ledger interface)) := by
  have hsiblings := filter_groups (p.pointerImplements · interface)
    (p.pooledParam? ledger ((p.interfaceMethods interface).map (·.key))) p.receivers
  rw [siblings_def, hsiblings]
  refine (p.receivers_perm.filterMap _).trans (.of_eq ?_)
  rw [methodDecls, List.filterMap_filterMap]
  congr 1
  funext decl
  cases decl with
  | func decl => cases hb : p.receiverBase? decl <;> simp [implementation?, methodDecl?_func, hb]
  | gen decl => rfl

theorem pooledParam?_eq_some {keys : List MethodKey} {decl : FuncDecl} {key : MethodKey}
    {v : VarId} : p.pooledParam? ledger keys decl = some (key, v) ↔
      (∃ object, decl.name.defined? = some object ∧ (p.object object).methodKey = key) ∧
        key ∈ keys ∧
        ∃ field name object, decl.signature.params.head? = some field ∧
          field.names.head? = some name ∧ name.defined? = some object ∧
          ledger.lookup object = some v := by
  simp only [pooledParam?_def, FuncDecl.firstParam?, Option.bind_eq_bind, Option.bind_eq_some_iff,
    Option.ite_none_right_eq_some, Option.map_eq_some_iff, Prod.mk.injEq]
  constructor
  · intro h
    obtain ⟨method, hmethod, hkey, w, ⟨object, ⟨field, hfield, name, hname, hobject⟩, hlookup⟩,
      rfl, rfl⟩ := h
    exact ⟨⟨method, hmethod, rfl⟩, hkey, field, name, object, hfield, hname, hobject, hlookup⟩
  · intro h
    obtain ⟨⟨method, hmethod, rfl⟩, hkey, field, name, object, hfield, hname, hobject, hlookup⟩ := h
    exact ⟨method, hmethod, hkey, v, ⟨object, ⟨field, hfield, name, hname, hobject⟩, hlookup⟩,
      rfl, rfl⟩

section WellFormed

variable (wf : p.WellFormed)
include wf

theorem receiverBase?_eq_some {decl : FuncDecl} {base : TypeId} :
    p.receiverBase? decl = some base ↔ p.IsMethodOf decl base := by
  simp only [receiverBase?_def, IsMethodOf, Option.map_eq_some_iff, Option.bind_eq_some_iff,
    unwrapPointers_eq_iff wf]
  constructor
  · intro h
    obtain ⟨type, ⟨field, ⟨fields, hfields, hfield⟩, htype⟩, hbase⟩ := h
    exact ⟨fields, field, type, hfields, hfield, htype, hbase⟩
  · intro h
    obtain ⟨fields, field, type, hfields, hfield, htype, hbase⟩ := h
    exact ⟨type, ⟨field, ⟨fields, hfields, hfield⟩, htype⟩, hbase⟩

theorem implementation?_eq_some {decl : Decl} {key : MethodKey} {v : VarId} :
    p.implementation? ledger interface decl = some (key, v) ↔
      ∃ func, decl = .func func ∧ p.Implementation ledger interface key func v := by
  cases decl with
  | gen decl => simp [implementation?]
  | func decl =>
    simp only [implementation?, Option.bind_eq_some_iff, Option.ite_none_right_eq_some,
      receiverBase?_eq_some wf, pooledParam?_eq_some, Decl.func.injEq]
    constructor
    · intro h
      obtain ⟨base, hbase, himplements, hname, hwanted, hparam⟩ := h
      exact ⟨decl, rfl, ⟨base, hbase, himplements⟩, hname, List.mem_map.mp hwanted, hparam⟩
    · intro h
      obtain ⟨_, rfl, ⟨base, hbase, himplements⟩, hname, hwanted, hparam⟩ := h
      exact ⟨base, hbase, himplements, hname, List.mem_map.mpr hwanted, hparam⟩

/-- The list of siblings holds the implementations of an interface. -/
theorem mem_siblings_iff {key : MethodKey} {v : VarId} :
    (key, v) ∈ p.siblings ledger interface ↔
      ∃ func, .func func ∈ p.decls ∧ p.Implementation ledger interface key func v := by
  rw [(p.siblings_perm ledger interface).mem_iff, List.mem_filterMap]
  constructor
  · intro h
    obtain ⟨decl, hdecl, he⟩ := h
    obtain ⟨func, rfl, himpl⟩ := (implementation?_eq_some wf).mp he
    exact ⟨func, hdecl, himpl⟩
  · intro h
    obtain ⟨func, hdecl, himpl⟩ := h
    exact ⟨.func func, hdecl, (implementation?_eq_some wf).mpr ⟨func, rfl, himpl⟩⟩

/-- The list of siblings holds each implementation once. -/
theorem countP_siblings (key : MethodKey) :
    (p.siblings ledger interface).countP (·.1 = key) =
      p.implementations ledger interface key := by
  rw [(p.siblings_perm ledger interface).countP_eq, List.countP_filterMap, implementations]
  refine List.countP_congr fun decl _ => ?_
  simp only [decide_eq_true_eq]
  constructor
  · intro h
    cases he : p.implementation? ledger interface decl with
    | none => simp [he] at h
    | some entry =>
      obtain ⟨found, v⟩ := entry
      obtain rfl : found = key := by simpa [he] using h
      obtain ⟨func, rfl, himpl⟩ := (implementation?_eq_some wf).mp he
      exact ⟨func, v, rfl, himpl⟩
  · intro h
    obtain ⟨func, v, rfl, himpl⟩ := h
    simp [(implementation?_eq_some wf).mpr ⟨func, rfl, himpl⟩]

end WellFormed

end Program

end LeastContext

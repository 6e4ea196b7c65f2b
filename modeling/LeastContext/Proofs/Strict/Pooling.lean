import LeastContext.Analysis.Collection
import LeastContext.Proofs.Implementations
import LeastContext.Proofs.Strict.Comparison
import LeastContext.Proofs.Strict.Composition

namespace LeastContext

open Evaluation Strict

section Groups

variable {κ α : Type} [DecidableEq κ]

theorem mem_addToGroup {key : κ} {value : α} {groups : List (κ × List α)} {group : κ × List α}
    (h : group ∈ addToGroup key value groups) :
    group.1 = key ∨ ∃ old ∈ groups, old.1 = group.1 := by
  induction groups with
  | nil =>
    rw [addToGroup, List.mem_singleton] at h
    exact .inl (congrArg Prod.fst h)
  | cons first groups ih =>
    rw [addToGroup] at h
    split at h
    · rename_i he
      rcases List.mem_cons.mp h with rfl | h
      · exact .inl he
      · exact .inr ⟨group, List.mem_cons_of_mem _ h, rfl⟩
    · rcases List.mem_cons.mp h with rfl | h
      · exact .inr ⟨first, List.mem_cons_self, rfl⟩
      · rcases ih h with he | ⟨old, ho, he⟩
        · exact .inl he
        · exact .inr ⟨old, List.mem_cons_of_mem _ ho, he⟩

/-- Every group stands under a key that was given. -/
theorem mem_addToGroups {pairs : List (κ × α)} {groups : List (κ × List α)} {group : κ × List α}
    (h : group ∈ pairs.foldl (fun groups pair => addToGroup pair.1 pair.2 groups) groups) :
    (∃ pair ∈ pairs, pair.1 = group.1) ∨ ∃ old ∈ groups, old.1 = group.1 := by
  induction pairs generalizing groups with
  | nil => exact .inr ⟨group, h, rfl⟩
  | cons pair pairs ih =>
    rcases ih h with ⟨other, ho, he⟩ | ⟨old, ho, he⟩
    · exact .inl ⟨other, List.mem_cons_of_mem _ ho, he⟩
    · rcases mem_addToGroup ho with hkey | ⟨older, holder, hkey⟩
      · exact .inl ⟨pair, List.mem_cons_self, hkey.symm.trans he⟩
      · exact .inr ⟨older, holder, hkey.trans he⟩

end Groups

namespace Program

variable {p : Program} {settings : Settings} {id : TypeId}

theorem Contains.part {node part : Node} (h : p.Contains node) (step : node.Part part) :
    p.Contains part := by
  obtain ⟨file, hfile, hnode⟩ := h
  exact ⟨file, hfile, hnode.tail step⟩

theorem contains_decl {decl : Decl} (h : decl ∈ p.decls) : p.Contains (.decl decl) := by
  obtain ⟨file, hfile, hdecl⟩ := List.mem_flatMap.mp h
  exact ⟨file, hfile, .single (.decl hdecl)⟩

theorem mem_methodDecls {base : TypeId} {decl : FuncDecl} (h : (base, decl) ∈ p.methodDecls) :
    .func decl ∈ p.decls ∧ p.receiverBase? decl = some base := by
  obtain ⟨written, hw, hm⟩ := List.mem_filterMap.mp h
  cases written with
  | func found =>
    obtain ⟨_, hb, he⟩ := Option.map_eq_some_iff.mp hm
    cases he
    exact ⟨hw, hb⟩
  | gen _ => cases hm

theorem mem_receivers {group : TypeId × List FuncDecl} {decl : FuncDecl} (h : group ∈ p.receivers)
    (hdecl : decl ∈ group.2) : .func decl ∈ p.decls := by
  have hpair : (group.1, decl) ∈ layOut p.receivers :=
    List.mem_flatMap.mpr ⟨group, h, List.mem_map_of_mem hdecl⟩
  exact (mem_methodDecls (p.receivers_perm.mem_iff.mp hpair)).1

/-- The receivers are grouped by the base types they have. -/
theorem exists_receiver_iff {base : TypeId} :
    (∃ group ∈ p.receivers, group.1 = base) ↔ ∃ method ∈ p.methodDecls, method.1 = base := by
  constructor
  · rintro ⟨group, hgroup, rfl⟩
    rw [receivers_def] at hgroup
    rcases mem_addToGroups hgroup with hmethod | ⟨_, hnone, _⟩
    · exact hmethod
    · cases hnone
  · rintro ⟨⟨_, decl⟩, hmethod, rfl⟩
    obtain ⟨group, hgroup, hdecl⟩ := List.mem_flatMap.mp (p.receivers_perm.mem_iff.mpr hmethod)
    obtain ⟨_, _, he⟩ := List.mem_map.mp hdecl
    exact ⟨group, hgroup, congrArg Prod.fst he⟩

section WellFormed

variable (wf : p.WellFormed)
include wf

theorem ident_resolves {name : Ident} {object : ObjectId} (hc : p.Contains (.ident name))
    (h : name.object? = some object) : p.resolves (.object object) := by
  obtain ⟨binding, hb, rfl⟩ := Option.map_eq_some_iff.mp h
  exact node_resolves wf hc (.binding hb)

theorem defined_resolves {name : Ident} {object : ObjectId} (hc : p.Contains (.ident name))
    (h : name.defined? = some object) : p.resolves (.object object) := by
  apply ident_resolves wf hc
  unfold Ident.defined? at h
  split at h
  · rename_i hb
    cases h
    simp [Ident.object?, hb, Binding.object]
  · cases h

theorem declaredObject_resolves {object : ObjectId} (h : object ∈ p.declaredObjects) :
    p.resolves (.object object) := by
  obtain ⟨file, hfile, hm⟩ := List.mem_flatMap.mp h
  obtain ⟨node, hnode, hdefined⟩ := List.mem_filterMap.mp hm
  unfold Node.defined? at hdefined
  split at hdefined
  · exact defined_resolves wf ⟨file, hfile, Node.part_of_mem_walk hnode⟩ hdefined
  · cases hdefined

theorem isCapableM_ok (h : p.resolves (.type id)) :
    p.isCapableM (m := Strict) settings id = .ok (p.isCapable settings id) := by
  rw [isCapableM, isCapable_def, isContextM_ok wf _ _ h, ok_bind]
  cases p.isContext settings.baseContext.path settings.baseContext.name id with
  | false => rfl
  | true =>
    rw [if_pos rfl, leafGroupsM_ok wf h, ok_bind, Bool.true_and]
    cases hleaves : p.leafGroups id with
    | nil => rfl
    | cons only more =>
      cases more with
      | nil =>
        have honly : p.resolves (.type only) := leaf_resolves wf h (by simp [hleaves])
        simp only [isBaseM, isBase_def, isTypeM_ok wf honly]
        rfl
      | cons second more => rfl

theorem isTrackableM_ok {object : ObjectId} (h : p.resolves (.object object)) :
    p.isTrackableM (m := Strict) settings object = .ok (p.isTrackable settings object) := by
  rw [isTrackableM, isTrackable_def, objectM_ok h, ok_bind]
  split
  · cases htype : (p.object object).type with
    | none => simp_all
    | some type => simp_all [isCapableM_ok wf (object_resolves wf (.type htype))]
  · simp_all

theorem collectM_ok (settings : Settings) :
    p.collectM (m := Strict) settings = .ok (p.collect settings) := by
  have tracked : keep (p.isTrackableM (m := Strict) settings) p.declaredObjects =
      .ok (p.declaredObjects.filter (p.isTrackable settings)) :=
    keep_ok fun object ho => isTrackableM_ok wf (declaredObject_resolves wf ho)
  rw [collectM, collect_def, tracked]
  rfl

theorem pointsTo_resolves {base : TypeId} (h : p.PointsTo id base) (hid : p.resolves (.type id)) :
    p.resolves (.type base) := by
  induction h with
  | plain _ => exact hid
  | pointer step _ ih => exact ih (part_resolves wf step .pointerElem)

section Declaration

variable {decl : FuncDecl} (hdecl : .func decl ∈ p.decls)
include hdecl

theorem receiverType_resolves {fields : List Field} {field : Field} {type : TypeId}
    (hfields : decl.receiver = some fields) (hfield : fields.head? = some field)
    (htype : field.type.type = some type) : p.resolves (.type type) := by
  have hfunc : p.Contains (.funcDecl decl) := (contains_decl hdecl).part .func
  have hf : p.Contains (.field field) := hfunc.part (.receiver hfields (List.mem_of_head? hfield))
  exact node_resolves wf (hf.part .fieldType) (.exprType htype)

theorem receiverBaseM_ok : p.receiverBaseM (m := Strict) decl = .ok (p.receiverBase? decl) := by
  rw [receiverBaseM, receiverBase?_def]
  cases ht : (decl.receiver.bind (·.head?)).bind (·.type.type) with
  | none => rfl
  | some type =>
    obtain ⟨field, hf, htype⟩ := Option.bind_eq_some_iff.mp ht
    obtain ⟨fields, hfields, hfield⟩ := Option.bind_eq_some_iff.mp hf
    have hresolves := receiverType_resolves wf hdecl hfields hfield htype
    simp [unwrapPointersM_ok wf hresolves]

theorem receiverBase_resolves {base : TypeId} (h : p.receiverBase? decl = some base) :
    p.resolves (.type base) := by
  obtain ⟨fields, field, type, hfields, hfield, htype, hpoints⟩ := (receiverBase?_eq_some wf).mp h
  exact pointsTo_resolves wf hpoints (receiverType_resolves wf hdecl hfields hfield htype)

theorem pooledParamM_ok (ledger : Ledger) (keys : List MethodKey) :
    p.pooledParamM (m := Strict) ledger keys decl = .ok (p.pooledParam? ledger keys decl) := by
  have hname : p.Contains (.ident decl.name) := ((contains_decl hdecl).part .func).part .funcName
  rw [pooledParamM, pooledParam?_def]
  cases hdefined : decl.name.defined? with
  | none => rfl
  | some method =>
    simp only [objectM_ok (defined_resolves wf hname hdefined)]
    rfl

end Declaration

theorem receiversM_ok : p.receiversM (m := Strict) = .ok p.receivers := by
  have methods : p.decls.mapM (p.methodDeclM (m := Strict)) = .ok (p.decls.map p.methodDecl?) := by
    apply mapM_ok
    intro decl hdecl
    cases decl with
    | func decl =>
      rw [methodDeclM, receiverBaseM_ok wf hdecl]
      rfl
    | gen decl => rfl
  rw [receiversM, methods, receivers_def, ok_bind, List.filterMap_map]
  rfl

theorem receiver_resolves {group : TypeId × List FuncDecl} (h : group ∈ p.receivers) :
    p.resolves (.type group.1) := by
  obtain ⟨⟨base, decl⟩, hmethod, he⟩ := exists_receiver_iff.mp ⟨group, h, rfl⟩
  obtain ⟨hdecl, hbase⟩ := mem_methodDecls hmethod
  rw [← he]
  exact receiverBase_resolves wf hdecl hbase

theorem implementing_follows (h : p.resolves (.type id)) :
    Follows p.Unsettled
      (keep (fun group : TypeId × List FuncDecl => p.pointerImplementsM group.1 id) p.receivers)
      (p.receivers.filter fun group => p.pointerImplements group.1 id) :=
  .keep fun _ hgroup => pointerImplementsM_follows wf (receiver_resolves wf hgroup) h

/-- Of looking for siblings only the checks of satisfaction can fail to return. -/
theorem siblingsM_eq (ledger : Ledger) (h : p.resolves (.type id)) :
    p.siblingsM (m := Strict) ledger id = (do
      let implementing ← keep (fun group => p.pointerImplementsM group.1 id) p.receivers
      return implementing.flatMap fun group =>
        group.2.filterMap (p.pooledParam? ledger ((p.interfaceMethods id).map (·.key)))) := by
  rw [siblingsM, interfaceMethodsM_ok wf h, ok_bind, receiversM_ok wf, ok_bind]
  rcases implementing_follows wf h with hkept | ⟨fault, _, hkept⟩
  · have params : ∀ decl ∈ (p.receivers.filter fun group =>
        p.pointerImplements group.1 id).flatMap (·.2),
        p.pooledParamM (m := Strict) ledger ((p.interfaceMethods id).map (·.key)) decl =
          .ok (p.pooledParam? ledger ((p.interfaceMethods id).map (·.key)) decl) := by
      intro decl hd
      obtain ⟨group, hg, hm⟩ := List.mem_flatMap.mp hd
      exact pooledParamM_ok wf (mem_receivers (List.mem_filter.mp hg).1 hm) _ _
    simp only [hkept, ok_bind, mapM_ok params, List.filterMap_map]
    simp only [pure_eq, Function.comp_def, List.filterMap_flatMap]
  · simp only [hkept, error_bind]

theorem siblingsM_follows (ledger : Ledger) (h : p.resolves (.type id)) :
    Follows p.Unsettled (p.siblingsM ledger id) (p.siblings ledger id) := by
  rw [siblingsM_eq wf ledger h, siblings_def]
  exact (implementing_follows wf h).map

/-- Whether the siblings are found does not depend on the ledger. -/
theorem siblingsM_returns (ledger : Ledger) (h : p.resolves (.type id)) :
    Returns (p.siblingsM ledger id) ↔
      ∀ method ∈ p.methodDecls, Returns (p.pointerImplementsM method.1 id) := by
  rw [siblingsM_eq wf ledger h, map_returns, keep_returns]
  constructor
  · intro returned method hmethod
    obtain ⟨group, hgroup, hbase⟩ := exists_receiver_iff.mpr ⟨method, hmethod, rfl⟩
    exact hbase ▸ returned group hgroup
  · intro returned group hgroup
    obtain ⟨method, hmethod, hbase⟩ := exists_receiver_iff.mp ⟨group, hgroup, rfl⟩
    exact hbase ▸ returned method hmethod

theorem packageInterfacesM_ok : p.packageInterfacesM (m := Strict) = .ok p.packageInterfaces := by
  have named : ∀ object ∈ p.objects.toList, p.namedInterfaceM (m := Strict) object =
      .ok (if object.kind = .typeName ∧ object.package = some p.package then
        object.type.filter p.isInterface else none) := by
    intro object ho
    rw [namedInterfaceM]
    split
    · cases htype : object.type with
      | none => rfl
      | some type =>
        have hresolves := wf.resolved _ (.object (Array.mem_def.mpr ho) (.type htype))
        simp only [isInterfaceM_ok wf hresolves, ok_bind]
        cases hi : p.isInterface type <;> simp [Option.filter, hi]
    · rfl
  rw [packageInterfacesM, packageInterfaces_def, mapM_ok named, ok_bind, List.filterMap_map]
  rfl

theorem packageInterface_resolves (h : id ∈ p.packageInterfaces) : p.resolves (.type id) := by
  obtain ⟨object, ho, _, _, htype, _⟩ := mem_packageInterfaces.mp h
  exact wf.resolved _ (.object ho (.type htype))

theorem poolM_follows (ledger : Ledger) :
    Follows p.Unsettled (p.poolM ledger) (p.pool ledger) := by
  rw [poolM, pool_def, packageInterfacesM_ok wf, ok_bind]
  refine Follows.bind (.foldlM ?_ _) (.inl rfl)
  intro interface hi pool
  rw [poolInterface_def]
  exact (siblingsM_follows wf pool.ledger (packageInterface_resolves wf hi)).map

/-- Pooling returns if for every interface of the package and every base type of a receiver the
check of satisfaction does. -/
theorem poolM_returns (ledger : Ledger) :
    Returns (p.poolM ledger) ↔ ∀ interface ∈ p.packageInterfaces,
      ∀ method ∈ p.methodDecls, Returns (p.pointerImplementsM method.1 interface) := by
  have step : ∀ interface ∈ p.packageInterfaces, ∀ pool : Pool,
      Returns (p.poolInterfaceM pool interface) ↔
        ∀ method ∈ p.methodDecls, Returns (p.pointerImplementsM method.1 interface) := by
    intro interface hi pool
    rw [← siblingsM_returns wf pool.ledger (packageInterface_resolves wf hi), poolInterfaceM]
    exact map_returns
  rw [poolM, packageInterfacesM_ok wf, ok_bind, ← foldlM_returns step ⟨ledger, [], 0⟩]
  exact map_returns

end WellFormed

end Program

end LeastContext

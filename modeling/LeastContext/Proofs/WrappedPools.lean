import LeastContext.Proofs.Replacement
import LeastContext.Proofs.Strict.Pooling
import LeastContext.Proofs.Wrapping

namespace LeastContext

open Evaluation Strict

variable {fixed : Expr → Prop}

namespace Node.Wrapped

theorem names_eq {f f' : Field} (h : (Node.field f).Wrapped fixed (.field f')) :
    f'.names = f.names := by
  obtain ⟨_, ⟨⟩, hnames, _⟩ := (h.alike nofun).field
  exact hnames

theorem fieldType_eq {f f' : Field} (h : (Node.field f).Wrapped fixed (.field f')) :
    f'.type.type = f.type.type := by
  obtain ⟨_, ⟨⟩, _, htype⟩ := (h.alike nofun).field
  exact htype.type_eq

theorem firstParam? {d d' : FuncDecl} (h : (Node.funcDecl d).Wrapped fixed (.funcDecl d')) :
    d'.firstParam? = d.firstParam? := by
  obtain ⟨_, ⟨⟩, _, _, hsig⟩ := (h.alike nofun).funcDecl
  obtain ⟨_, ⟨⟩, hparams⟩ := (hsig.alike nofun).funcType
  rw [FuncDecl.firstParam?, FuncDecl.firstParam?]
  generalize d.signature.params = params, d'.signature.params = params' at hparams
  cases hparams with
  | nil => rfl
  | cons hfirst _ => simp [hfirst.names_eq]

theorem receiverBase? (p : Program) {d d' : FuncDecl}
    (h : (Node.funcDecl d).Wrapped fixed (.funcDecl d')) :
    p.receiverBase? d' = p.receiverBase? d := by
  obtain ⟨_, ⟨⟩, _, hreceiver, _⟩ := (h.alike nofun).funcDecl
  rw [Program.receiverBase?_def, Program.receiverBase?_def]
  generalize d.receiver = receiver, d'.receiver = receiver' at hreceiver
  cases hreceiver with
  | none => rfl
  | some hfields =>
    cases hfields with
    | nil => rfl
    | cons hfirst _ => simp [hfirst.fieldType_eq]

end Node.Wrapped

/-- All that pooling looks at in the declaration of a method. -/
def FuncDecl.outer (d : FuncDecl) : Ident × Option ObjectId :=
  (d.name, d.firstParam?)

theorem addToGroup_map {κ α β : Type} [DecidableEq κ] (f : α → β) (key : κ) (value : α)
    (groups : List (κ × List α)) :
    (addToGroup key value groups).map (Prod.map id (List.map f)) =
      addToGroup key (f value) (groups.map (Prod.map id (List.map f))) := by
  induction groups with
  | nil => rfl
  | cons group groups ih =>
    obtain ⟨k, values⟩ := group
    by_cases hk : k = key <;> simp [addToGroup, hk, ih]

/-- Values may be changed before or after they are put in groups. -/
theorem groups_map {κ α β : Type} [DecidableEq κ] (f : α → β) (pairs : List (κ × α))
    (groups : List (κ × List α)) :
    (pairs.foldl (fun groups pair => addToGroup pair.1 pair.2 groups) groups).map
        (Prod.map id (List.map f)) =
      (pairs.map (Prod.map id f)).foldl (fun groups pair => addToGroup pair.1 pair.2 groups)
        (groups.map (Prod.map id (List.map f))) := by
  induction pairs generalizing groups with
  | nil => rfl
  | cons first pairs ih =>
    rw [List.foldl_cons, ih, addToGroup_map]
    rfl

namespace Program

variable {p : Program} {files' : List SourceFile}

/-- The method that a declaration declares, as far as pooling looks at it. -/
def methodOuter? (p : Program) : Decl → Option (TypeId × Ident × Option ObjectId)
  | .func d => (p.receiverBase? d).map (·, d.outer)
  | .gen _ => none

theorem methodDecls_outer (p : Program) : p.methodDecls.map (Prod.map id FuncDecl.outer) =
    p.files.flatMap fun file => file.decls.flatMap fun d => (p.methodOuter? d).toList := by
  have houter : ∀ d, (p.methodDecl? d).map (Prod.map id FuncDecl.outer) = p.methodOuter? d := by
    intro d
    cases d with
    | func d => cases hbase : p.receiverBase? d <;> simp [methodDecl?_func, methodOuter?, hbase]
    | gen _ => rfl
  rw [methodDecls, decls, List.map_filterMap, List.filterMap_eq_flatMap_toList,
    List.flatMap_assoc]
  simp only [houter]

theorem receivers_outer (p : Program) :
    p.receivers.map (Prod.map id (List.map FuncDecl.outer)) =
      (p.methodDecls.map (Prod.map id FuncDecl.outer)).foldl
        (fun groups method => addToGroup method.1 method.2 groups) [] := by
  rw [receivers_def]
  exact groups_map FuncDecl.outer p.methodDecls []

def pooledOuter? (p : Program) (ledger : Ledger) (keys : List MethodKey) :
    Ident × Option ObjectId → Option (MethodKey × VarId)
  | (name, param) =>
    name.defined?.bind fun method =>
      if (p.object method).methodKey ∈ keys then
        (param.bind ledger.lookup).map ((p.object method).methodKey, ·)
      else none

theorem siblingsM_outer (wf : p.WellFormed) (ledger : Ledger) {interface : TypeId}
    (hi : p.resolves (.type interface)) :
    p.siblingsM (m := Strict) ledger interface = (do
      let implementing ← keep (fun group => p.pointerImplementsM group.1 interface)
        (p.receivers.map (Prod.map id (List.map FuncDecl.outer)))
      return implementing.flatMap fun group =>
        group.2.filterMap
          (p.pooledOuter? ledger ((p.interfaceMethods interface).map (·.key)))) := by
  have hparam : ∀ keys,
      p.pooledParam? ledger keys = p.pooledOuter? ledger keys ∘ FuncDecl.outer := by
    intro keys
    funext decl
    exact p.pooledParam?_def ledger keys decl
  rw [siblingsM_eq wf ledger hi, keep_map]
  simp only [hparam, bind_assoc, pure_bind, List.flatMap_map, Prod.map_fst, Prod.map_snd,
    List.filterMap_map]
  rfl

/-- The files of a program with some of their expressions in parentheses. -/
def Wrapped (p : Program) (fixed : Expr → Prop) (files' : List SourceFile) : Prop :=
  List.Forall₂ (fun f f' => (Node.file f).Wrapped fixed (.file f')) p.files files'

namespace Wrapped

variable (h : p.Wrapped fixed files')
include h

theorem methodDecls : (p.withFiles files').methodDecls.map (Prod.map id FuncDecl.outer) =
    p.methodDecls.map (Prod.map id FuncDecl.outer) := by
  rw [methodDecls_outer, methodDecls_outer, files_withFiles]
  refine flatMap_eq_of_forall₂ (h.imp ?_)
  intro f f' hf
  obtain ⟨_, ⟨⟩, _, _, hdecls⟩ := (hf.alike nofun).file
  refine flatMap_eq_of_forall₂ (hdecls.imp ?_)
  intro d d' hd
  rcases (hd.alike nofun).decl with ⟨g, g', rfl, ⟨⟩, hg⟩ | ⟨g, g', rfl, ⟨⟩⟩
  · obtain ⟨_, ⟨⟩, hname, _⟩ := (hg.alike nofun).funcDecl
    simp only [methodOuter?, FuncDecl.outer, receiverBase?_withFiles, hg.receiverBase?,
      hg.firstParam?, hname]
  · rfl

section Runs

variable (wf : p.WellFormed) (wf' : (p.withFiles files').WellFormed)
include wf wf'

theorem siblingsM (ledger : Ledger) {interface : TypeId} (hi : p.resolves (.type interface)) :
    (p.withFiles files').siblingsM (m := Strict) ledger interface =
      p.siblingsM ledger interface := by
  have hpooled : (p.withFiles files').pooledOuter? = p.pooledOuter? := rfl
  rw [siblingsM_outer wf ledger hi, siblingsM_outer wf' ledger hi, receivers_outer,
    receivers_outer, h.methodDecls, pointerImplementsM_withFiles, interfaceMethods_withFiles,
    hpooled]

theorem poolM (ledger : Ledger) :
    (p.withFiles files').poolM (m := Strict) ledger = p.poolM ledger := by
  rw [Program.poolM, Program.poolM, packageInterfacesM_withFiles, packageInterfacesM_ok wf,
    ok_bind, ok_bind]
  congr 1
  refine foldlM_congr ?_ _
  intro interface hi pool
  rw [poolInterfaceM, poolInterfaceM, h.siblingsM wf wf' _ (packageInterface_resolves wf hi)]

end Runs

end Wrapped

end Program

end LeastContext

import LeastContext.Proofs.Strict.Pooling
import LeastContext.Proofs.Strict.Rendering
import LeastContext.Proofs.UseSites

namespace LeastContext.Program

open Strict

variable {p : Program} {settings : Settings} {callee : Expr} {args : List Expr}

section WellFormed

variable (wf : p.WellFormed)
include wf

theorem refersTo_resolves {e : Expr} {object : ObjectId} (h : e.RefersTo object)
    (hc : p.Contains (.expr e)) : p.resolves (.object object) := by
  induction h with
  | ident hname => exact ident_resolves wf (hc.part (.ofExpr .ident)) hname
  | selector hmember => exact ident_resolves wf (hc.part (.ofExpr .selectorMember)) hmember
  | paren _ ih => exact ih (hc.part (.ofExpr .paren))

theorem calleeObject_resolves {object : ObjectId} (hc : p.Contains (.expr callee))
    (h : callee.calleeObject? = some object) : p.resolves (.object object) :=
  refersTo_resolves wf (Expr.refersTo_of_calleeObject? h) hc

theorem calleeSignatureM_ok (hc : p.Contains (.expr callee)) :
    p.calleeSignatureM (m := Strict) callee = .ok (p.calleeSignature callee) := by
  rw [calleeSignatureM, calleeSignature_def]
  cases htype : callee.type with
  | none =>
    cases ho : callee.calleeObject? with
    | none => rfl
    | some object => simp [objectM_ok (calleeObject_resolves wf hc ho)]
  | some type =>
    have ht := node_resolves wf hc (.exprType htype)
    simp only [underlyingM_ok wf ht, formM_ok (underlying_resolves wf ht), renderM_ok wf ht,
      ok_bind]
    cases p.form (p.underlying type) <;> rfl

theorem argumentMarksM_ok {sig : Signature} {id : TypeId} (hform : p.form id = .signature sig)
    (spread : Bool) (args : List Expr) :
    p.argumentMarksM (m := Strict) sig spread args = .ok (p.argumentMarks sig spread args) := by
  have types : ∀ i,
      p.argumentTypeM (m := Strict) sig spread i = .ok (p.argumentType? sig spread i) := by
    intro i
    rw [argumentTypeM, argumentType?_def]
    cases hlast : sig.params.getLast? with
    | none => rfl
    | some last =>
      have htype := part_resolves wf hform (.param (List.mem_of_getLast? hlast))
      simp only [sliceElemM_ok htype, ok_bind]
      split <;> rfl
  have each : ∀ arg ∈ args.zipIdx, p.argumentMarkM (m := Strict) sig spread arg =
      .ok (Id.run (p.argumentMarkM sig spread arg)) := by
    intro arg _
    rw [argumentMarkM, argumentMarkM, types, ok_bind]
    change _ = Except.ok (Id.run (pure (p.argumentType? sig spread arg.2) >>= _))
    cases p.argumentType? sig spread arg.2 <;> rfl
  rw [argumentMarksM, argumentMarks, argumentMarksM, mapM_ok each, ok_bind]
  simp only [Evaluation.mapM_plain]
  rfl

theorem firstParamM_ok {type : TypeId} (h : p.resolves (.type type)) :
    p.firstParamM (m := Strict) type = .ok (p.firstParam? type) := by
  rw [firstParamM, firstParam?_def, formM_ok h, ok_bind]
  cases hform : p.form type with
  | signature sig =>
    cases hparam : sig.params.head?.bind (·.object) with
    | none => simp [hparam]
    | some object =>
      obtain ⟨param, hhead, hobject⟩ := Option.bind_eq_some_iff.mp hparam
      have hresolves := form_resolves wf hform (.paramObject (List.mem_of_head? hhead) hobject)
      simp [hparam, objectM_ok hresolves]
  | _ => rfl

theorem wrappedParamM_ok (names : List String) (hc : p.Contains (.expr callee))
    (hargs : ∀ arg ∈ args, p.Contains (.expr arg)) :
    p.wrappedParamM (m := Strict) names callee args = .ok (p.wrappedParam? names callee args) := by
  rw [wrappedParamM, wrappedParam?_def]
  cases hf : callee.calleeObject? with
  | none => rfl
  | some f =>
    simp only [qualifiedNameM_ok wf (calleeObject_resolves wf hc hf), ok_bind, Option.bind_some]
    split
    · cases htype : args.head?.bind (·.type) with
      | none => rfl
      | some type =>
        obtain ⟨arg, harg, htype⟩ := Option.bind_eq_some_iff.mp htype
        have ht := node_resolves wf (hargs arg (List.mem_of_head? harg)) (.exprType htype)
        exact firstParamM_ok wf ht
    · rfl

theorem callMarksM_ok (spread : Bool) (hc : p.Contains (.expr callee))
    (hargs : ∀ arg ∈ args, p.Contains (.expr arg)) :
    p.callMarksM (m := Strict) settings callee args spread =
      .ok (p.callMarks settings callee args spread) := by
  rw [callMarksM, callMarks_def, calleeSignatureM_ok wf hc, ok_bind]
  cases hsig : p.calleeSignature callee with
  | error breach => rfl
  | ok signature =>
    cases signature with
    | none =>
      simp only [wrappedParamM_ok wf _ hc hargs, ok_bind]
      rfl
    | some sig =>
      obtain ⟨_, c, _, _, hform⟩ := (calleeSignature_ok hsig sig).mp rfl
      simp only [argumentMarksM_ok wf hform spread args, wrappedParamM_ok wf _ hc hargs, ok_bind]
      rfl

theorem literalMarksM_ok {type : Option TypeId} (elements : List Expr)
    (h : ∀ id, type = some id → p.resolves (.type id)) :
    p.literalMarksM (m := Strict) type elements = .ok (p.literalMarks type elements) := by
  cases type with
  | none => rfl
  | some type =>
    have ht := h type rfl
    simp only [literalMarksM, literalMarks_def, underlyingM_ok wf ht,
      formM_ok (underlying_resolves wf ht), ok_bind, Option.map_some]
    cases p.form (p.underlying type) <;> rfl

theorem marksM_ok {e : Expr} (h : p.Contains (.expr e)) :
    p.marksM (m := Strict) settings e = .ok (p.marks settings e) := by
  obtain ⟨form, type⟩ := e
  cases form with
  | call callee args spread =>
    refine callMarksM_ok wf spread (h.part (.ofExpr .callee)) ?_
    intro arg harg
    exact h.part (.ofExpr (.argument harg))
  | compositeLit written elements =>
    have typed : ∀ id, type = some id → p.resolves (.type id) :=
      fun id hid => node_resolves wf h (.exprType hid)
    simp only [marksM, marks_def, literalMarksM_ok wf elements typed, ok_bind, pure_eq]
  | typeAssert operand target => cases target <;> rfl
  | _ => rfl

theorem markExprsM_ok {exprs : List Expr} (h : ∀ e ∈ exprs, p.Contains (.expr e))
    (marking : Marking) :
    p.markExprsM (m := Strict) settings marking exprs =
      .ok (p.markExprs settings marking exprs) := by
  induction exprs generalizing marking with
  | nil => rfl
  | cons e exprs ih =>
    rw [markExprsM, markExprs_cons, marksM_ok wf (h e List.mem_cons_self), ok_bind]
    cases p.marks settings e with
    | error breach => rfl
    | ok marks => exact ih (fun other ho => h other (List.mem_cons_of_mem _ ho)) _

theorem markUsesM_ok (settings : Settings) (ledger : Ledger) :
    p.markUsesM (m := Strict) settings ledger = .ok (p.markUses settings ledger) :=
  markExprsM_ok wf (fun _ he => mem_exprs.mp he) _

end WellFormed

end LeastContext.Program

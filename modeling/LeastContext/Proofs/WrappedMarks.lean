import LeastContext.Proofs.Lists
import LeastContext.Proofs.UseSites
import LeastContext.Proofs.Wrapping

namespace LeastContext

variable {fixed : Expr → Prop}

theorem receiverMarks_eq_nil {callee : Expr} (h : callee.form.isSelector = false) :
    callee.receiverMarks = [] := by
  obtain ⟨form, type⟩ := callee
  cases form <;> simp_all [Expr.receiverMarks, ExprForm.isSelector]

namespace Node.Wrapped

variable {e e' : Expr}

theorem marksAs (h : (Node.expr e).Wrapped fixed (.expr e')) (type : TypeId) :
    e'.marksAs type = e.marksAs type := by
  rw [Expr.marksAs, Expr.marksAs, h.variable?]

theorem isKeyValue (h : (Node.expr e).Wrapped fixed (.expr e')) :
    e'.form.isKeyValue = e.form.isKeyValue := by
  cases h with
  | paren hkey _ => exact hkey.symm
  | inside hhead hchildren hcallee =>
    obtain ⟨_, ⟨⟩, _, hform⟩ := Alike.expr ⟨hhead, hchildren, hcallee⟩
    rw [← ExprForm.isKeyValue_head, hform, ExprForm.isKeyValue_head]

/-- Only the marks of a method call may be lost, and none of a fixed callee. -/
theorem receiverMarks {keep : Mark → Bool} (h : (Node.expr e).Wrapped fixed (.expr e'))
    (hfixed : fixed e → e'.form.isParen = e.form.isParen)
    (hkeep : ∀ mark ∈ e.receiverMarks, keep mark = true → fixed e) :
    e'.receiverMarks.filter keep = e.receiverMarks.filter keep := by
  cases h with
  | paren hkey hinner =>
    have hlost : e.receiverMarks.filter keep = [] := by
      rw [List.filter_eq_nil_iff]
      intro mark hmark hkept
      obtain ⟨_, _, _, hform, _⟩ := Expr.mem_receiverMarks.mp hmark
      have hparen := hfixed (hkeep mark hmark hkept)
      rw [hform] at hparen
      cases hparen
    rw [hlost]
    rfl
  | inside hhead hchildren hcallee =>
    have halike : (Node.expr e).Alike fixed (.expr e') := ⟨hhead, hchildren, hcallee⟩
    cases hselector : e.form.isSelector with
    | false =>
      obtain ⟨_, ⟨⟩, _, hform⟩ := halike.expr
      have hselector' : e'.form.isSelector = false := by
        rw [← ExprForm.isSelector_head, hform, ExprForm.isSelector_head, hselector]
      rw [receiverMarks_eq_nil hselector, receiverMarks_eq_nil hselector']
    | true =>
      obtain ⟨form, type⟩ := e
      cases form with
      | selector operand member =>
        obtain ⟨operand', rfl, hoperand⟩ := halike.selector
        simp only [Expr.receiverMarks, hoperand.variable?]
      | _ => cases hselector

end Node.Wrapped

namespace Program

variable (p : Program) (settings : Settings) {keep : Mark → Bool}

theorem calleeSignature_wrapped {callee callee' : Expr}
    (h : (Node.expr callee).Wrapped fixed (.expr callee')) :
    p.calleeSignature callee' = p.calleeSignature callee := by
  rw [calleeSignature_def, calleeSignature_def, h.type_eq, h.calleeObject?]

theorem argumentMarks_wrapped (sig : Signature) (spread : Bool) {args args' : List Expr}
    (h : List.Forall₂ (fun a a' => (Node.expr a).Wrapped fixed (.expr a')) args args') :
    p.argumentMarks sig spread args' = p.argumentMarks sig spread args := by
  rw [argumentMarks_def, argumentMarks_def, mapIdx_eq_of_forall₂ h]
  intro i a a' ha
  cases p.argumentType? sig spread i with
  | none => rfl
  | some type => exact ha.marksAs type

theorem wrappedParam?_wrapped (names : List String) {callee callee' : Expr}
    (h : (Node.expr callee).Wrapped fixed (.expr callee')) {args args' : List Expr}
    (hargs : List.Forall₂ (fun a a' => (Node.expr a).Wrapped fixed (.expr a')) args args') :
    p.wrappedParam? names callee' args' = p.wrappedParam? names callee args := by
  rw [wrappedParam?_def, wrappedParam?_def, h.calleeObject?]
  cases hargs with
  | nil => rfl
  | cons ha _ => simp only [List.head?_cons, ha.type_eq, Option.bind_some]

/-- An element without a key is marked by its place. -/
theorem positional_marks (fields : List StructField) (i : Nat) {element : Expr}
    (h : element.form.isKeyValue = false) :
    (match element.form with
      | .keyValue key value =>
        match key.type with
        | some type => value.marksAs type
        | none => []
      | _ =>
        match fields[i]? with
        | some field => element.marksAs field.type
        | none => []) =
      match fields[i]? with
      | some field => element.marksAs field.type
      | none => [] := by
  obtain ⟨form, type⟩ := element
  cases form with
  | keyValue key value => cases h
  | _ => rfl

theorem elementMarks_wrapped (fields : List StructField) {elements elements' : List Expr}
    (h : List.Forall₂ (fun a a' => (Node.expr a).Wrapped fixed (.expr a')) elements elements') :
    elementMarks fields elements' = elementMarks fields elements := by
  rw [elementMarks, elementMarks, mapIdx_eq_of_forall₂ h]
  intro i e e' he
  cases hkey : e.form.isKeyValue with
  | true =>
    obtain ⟨form, type⟩ := e
    cases form with
    | keyValue key value =>
      cases he with
      | paren hno _ => cases hno
      | inside hhead hchildren hcallee =>
        obtain ⟨key', value', rfl, hk, hv⟩ := Node.Alike.keyValue ⟨hhead, hchildren, hcallee⟩
        simp only [hk.type_eq]
        cases key.type with
        | none => rfl
        | some type => exact hv.marksAs type
    | _ => cases hkey
  | false =>
    have hkey' : e'.form.isKeyValue = false := he.isKeyValue.trans hkey
    refine (positional_marks fields i hkey').trans ?_
    refine Eq.trans ?_ (positional_marks fields i hkey).symm
    cases fields[i]? with
    | none => rfl
    | some field => exact he.marksAs field.type

theorem callMarks_wrapped {callee callee' : Expr} {args args' : List Expr} (spread : Bool)
    (h : (Node.expr callee).Wrapped fixed (.expr callee'))
    (hfixed : fixed callee → callee'.form.isParen = callee.form.isParen)
    (hkeep : ∀ mark ∈ callee.receiverMarks, keep mark = true → fixed callee)
    (hargs : List.Forall₂ (fun a a' => (Node.expr a).Wrapped fixed (.expr a')) args args') :
    (p.callMarks settings callee' args' spread).map (List.filter keep) =
      (p.callMarks settings callee args spread).map (List.filter keep) := by
  have hmarks := h.receiverMarks hfixed hkeep
  rw [callMarks_def, callMarks_def, p.calleeSignature_wrapped h, p.wrappedParam?_wrapped _ h hargs,
    p.wrappedParam?_wrapped _ h hargs]
  cases p.calleeSignature callee with
  | error breach => rfl
  | ok found =>
    cases found with
    | none =>
      simp only [bind, Except.bind, pure, Except.pure, Except.map, List.filter_append, hmarks]
    | some sig =>
      simp only [bind, Except.bind, pure, Except.pure, Except.map, List.filter_append, hmarks,
        p.argumentMarks_wrapped sig spread hargs]

theorem marks_eq_nil {e : Expr} (h : e.form.isMarking = false) : p.marks settings e = .ok [] := by
  obtain ⟨form, type⟩ := e
  cases form with
  | call _ _ _ => cases h
  | compositeLit _ _ => cases h
  | typeAssert operand target =>
    cases target with
    | none => rfl
    | some _ => cases h
  | _ => rfl

/-- Expressions with the same head make the same marks, save what is lost with a callee. -/
theorem marks_alike {e e' : Expr} (h : (Node.expr e).Alike fixed (.expr e'))
    (hkeep : ∀ callee : Expr, ∀ mark ∈ callee.receiverMarks, keep mark = true → fixed callee) :
    (p.marks settings e').map (List.filter keep) =
      (p.marks settings e).map (List.filter keep) := by
  cases hmarking : e.form.isMarking with
  | false =>
    obtain ⟨_, ⟨⟩, _, hform⟩ := h.expr
    have hmarking' : e'.form.isMarking = false := by
      rw [← ExprForm.isMarking_head, hform, ExprForm.isMarking_head, hmarking]
    rw [p.marks_eq_nil settings hmarking, p.marks_eq_nil settings hmarking']
  | true =>
    obtain ⟨form, type⟩ := e
    cases form with
    | call callee args spread =>
      obtain ⟨callee', args', rfl, hcallee, hfixed, hargs⟩ := h.call
      exact p.callMarks_wrapped settings spread hcallee hfixed (hkeep callee) hargs
    | compositeLit written elements =>
      obtain ⟨written', elements', rfl, helements⟩ := h.compositeLit
      simp only [marks_def, literalMarks_def, elementMarks_wrapped _ helements]
    | typeAssert operand target =>
      cases target with
      | none => cases hmarking
      | some target =>
        obtain ⟨operand', target', rfl, hoperand, htarget⟩ := h.typeAssert
        simp only [marks_def, htarget.type_eq, hoperand.marksAs]
    | _ => cases hmarking

end Program

end LeastContext

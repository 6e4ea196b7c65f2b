import LeastContext.Analysis.Marking
import LeastContext.Proofs.Underlying
import LeastContext.Proofs.UsageSets
import LeastContext.Proofs.WellFormed
import Mathlib.Data.Option.Basic

namespace LeastContext

/-- A bare identifier, possibly in parentheses, that denotes an object. -/
inductive Expr.Names : Expr → ObjectId → Prop where
  | ident {name type object} : name.object? = some object → Names ⟨.ident name, type⟩ object
  | paren {inner type object} : Names inner object → Names ⟨.paren inner, type⟩ object

/-- A callee that refers to a function, a function of a package or a method. -/
inductive Expr.RefersTo : Expr → ObjectId → Prop where
  | ident {name type object} : name.object? = some object → RefersTo ⟨.ident name, type⟩ object
  | selector {operand member type object} :
      member.object? = some object → RefersTo ⟨.selector operand member, type⟩ object
  | paren {inner type object} : RefersTo inner object → RefersTo ⟨.paren inner, type⟩ object

/-- The mark that records a use of an object. -/
def Use.mark (object : ObjectId) : Use → Mark
  | .interface type => .interface object type
  | .method name => .method object name
  | .cached => .cached object

theorem Use.mark_inj {object other : ObjectId} {use use' : Use}
    (h : use.mark object = use'.mark other) : object = other ∧ use = use' := by
  cases use <;> cases use' <;> simp_all [Use.mark]

theorem Use.mark_ne_dropped {object other : ObjectId} {use : Use} :
    use.mark object ≠ .dropped other := by
  cases use <;> simp [Use.mark]

namespace Program

theorem mem_exprs {p : Program} {e : Expr} : e ∈ p.exprs ↔ p.Contains (.expr e) := by
  constructor
  · intro h
    obtain ⟨file, hfile, hm⟩ := List.mem_flatMap.mp h
    obtain ⟨node, hnode, hn⟩ := List.mem_filterMap.mp hm
    split at hn
    · cases hn
      exact ⟨file, hfile, Node.mem_all.mp hnode⟩
    · cases hn
  · intro hcontains
    obtain ⟨file, hfile, hpart⟩ := hcontains
    refine List.mem_flatMap.mpr ⟨file, hfile, ?_⟩
    exact List.mem_filterMap.mpr ⟨.expr e, Node.mem_all.mpr hpart, rfl⟩

/-- The type that the argument in some place is used as: that of the parameter in its place, but
from the last parameter of a variadic signature on, unless the arguments are spread, the element
of that parameter. -/
inductive Binds (p : Program) (sig : Signature) (spread : Bool) : Nat → TypeId → Prop where
  | param {i param} : sig.variadic = false ∨ spread = true ∨ i + 1 < sig.params.length →
      sig.params[i]? = some param → Binds p sig spread i param.type
  | variadicElem {i last elem} : sig.variadic = true → spread = false →
      sig.params.getLast? = some last → sig.params.length ≤ i + 1 →
      p.form last.type = .slice elem → Binds p sig spread i elem
  | variadicOther {i last} : sig.variadic = true → spread = false →
      sig.params.getLast? = some last → sig.params.length ≤ i + 1 →
      (∀ elem, p.form last.type ≠ .slice elem) → Binds p sig spread i last.type

/-- A call of one of some functions gets a function whose first parameter is an object. -/
def Wraps (p : Program) (names : List String) (callee : Expr) (args : List Expr)
    (object : ObjectId) : Prop :=
  ∃ f name arg type sig param, callee.RefersTo f ∧ p.qualifiedName? f = some name ∧ name ∈ names ∧
    args.head? = some arg ∧ arg.type = some type ∧ p.form type = .signature sig ∧
    sig.params.head? = some param ∧ param.object = some object

/-- An expression uses an object. -/
inductive UsedAt (p : Program) (settings : Settings) : Expr → ObjectId → Use → Prop where
  | argument {callee args spread type calleeType c sig i arg bound object} :
      callee.type = some calleeType → p.DefinedBy calleeType c → p.form c = .signature sig →
      args[i]? = some arg → p.Binds sig spread i bound → arg.Names object →
      UsedAt p settings ⟨.call callee args spread, type⟩ object (.interface bound)
  | asserted {operand target type asserted object} :
      target.type = some asserted → operand.Names object →
      UsedAt p settings ⟨.typeAssert operand (some target), type⟩ object (.interface asserted)
  | keyed {written elements type c fields key value elementType fieldType object} :
      p.DefinedBy type c → p.form c = .struct fields →
      ⟨.keyValue key value, elementType⟩ ∈ elements → key.type = some fieldType →
      value.Names object →
      UsedAt p settings ⟨.compositeLit written elements, some type⟩ object (.interface fieldType)
  | positional {written elements type c fields object} {i : Nat} {element : Expr}
      {field : StructField} :
      p.DefinedBy type c → p.form c = .struct fields → elements[i]? = some element →
      fields[i]? = some field → element.Names object →
      UsedAt p settings ⟨.compositeLit written elements, some type⟩ object (.interface field.type)
  | receiver {operand member calleeType args spread type object} :
      operand.Names object →
      UsedAt p settings ⟨.call ⟨.selector operand member, calleeType⟩ args spread, type⟩ object
        (.method member.name)
  | memoized {callee args spread type object} :
      p.Wraps settings.memoizeFunctions callee args object →
      UsedAt p settings ⟨.call callee args spread, type⟩ object .cached

/-- An expression drops an object from tracking. -/
inductive DropsAt (p : Program) (settings : Settings) : Expr → ObjectId → Prop where
  | keyParams {callee args spread type object} :
      p.Wraps settings.keyParamFunctions callee args object →
      DropsAt p settings ⟨.call callee args spread, type⟩ object

/-- A call that no type-checked program has. -/
inductive BreachAt (p : Program) : Expr → Prop where
  | untypedCallee {callee args spread type} : callee.type = none →
      (∀ f, callee.RefersTo f → (p.object f).kind ≠ .builtin) →
      BreachAt p ⟨.call callee args spread, type⟩
  | notAFunction {callee args spread type calleeType} : callee.type = some calleeType →
      (∀ c sig, p.DefinedBy calleeType c → p.form c ≠ .signature sig) →
      BreachAt p ⟨.call callee args spread, type⟩

end Program

theorem Expr.names_of_bare {e : Expr} {object : ObjectId} (h : e.variable? = some object) :
    e.Names object := by
  match e, h with
  | ⟨.ident _, _⟩, h => exact .ident h
  | ⟨.paren inner, _⟩, h => exact .paren (names_of_bare h)

theorem Expr.variable?_eq_some {e : Expr} {object : ObjectId} :
    e.variable? = some object ↔ e.Names object := by
  refine ⟨names_of_bare, ?_⟩
  intro h
  induction h with
  | ident h => exact h
  | paren _ ih => exact ih

theorem Expr.refersTo_of_calleeObject? {e : Expr} {object : ObjectId}
    (h : e.calleeObject? = some object) : e.RefersTo object := by
  match e, h with
  | ⟨.ident _, _⟩, h => exact .ident h
  | ⟨.selector _ _, _⟩, h => exact .selector h
  | ⟨.paren inner, _⟩, h => exact .paren (refersTo_of_calleeObject? h)

theorem Expr.calleeObject?_eq_some {e : Expr} {object : ObjectId} :
    e.calleeObject? = some object ↔ e.RefersTo object := by
  refine ⟨refersTo_of_calleeObject?, ?_⟩
  intro h
  induction h with
  | ident h => exact h
  | selector h => exact h
  | paren _ ih => exact ih

theorem Expr.mem_marksAs {value : Expr} {type : TypeId} {mark : Mark} :
    mark ∈ value.marksAs type ↔ ∃ object, value.Names object ∧ mark = .interface object type := by
  simp only [Expr.marksAs, List.mem_map, Option.mem_toList,
    Expr.variable?_eq_some, @eq_comm _ mark]

theorem Expr.mem_receiverMarks {callee : Expr} {mark : Mark} :
    mark ∈ callee.receiverMarks ↔ ∃ operand member object,
      callee.form = .selector operand member ∧ operand.Names object ∧
        mark = .method object member.name := by
  unfold Expr.receiverMarks
  split
  · rename_i operand member hform
    simp only [List.mem_map, Option.mem_toList, Expr.variable?_eq_some]
    constructor
    · intro hmark
      obtain ⟨object, hn, rfl⟩ := hmark
      exact ⟨operand, member, object, hform, hn, rfl⟩
    · intro hmark
      obtain ⟨_, _, object, he, hn, rfl⟩ := hmark
      cases hform.symm.trans he
      exact ⟨object, hn, rfl⟩
  · rename_i hform
    constructor
    · intro h
      cases h
    · intro hmark
      obtain ⟨operand, member, _, he, _⟩ := hmark
      exact absurd he (hform operand member)

namespace Program

variable {p : Program} {settings : Settings}

theorem sliceElem?_eq_some {id elem : TypeId} :
    p.sliceElem? id = some elem ↔ p.form id = .slice elem := by
  rw [sliceElem?_def]
  split
  · rename_i other hform
    rw [hform, Option.some.injEq, TypeForm.slice.injEq]
  · rename_i hform
    constructor
    · intro h
      cases h
    · intro h
      exact absurd h (hform elem)

theorem argumentType?_eq_some {sig : Signature} {spread : Bool} {i : Nat} {type : TypeId} :
    p.argumentType? sig spread i = some type ↔ p.Binds sig spread i type := by
  rw [argumentType?_def]
  split
  · rename_i hlast
    have hempty := List.getLast?_eq_none_iff.mp hlast
    constructor
    · intro h
      cases h
    · intro h
      cases h <;> simp_all
  · rename_i last hlast
    split
    · rename_i hvar
      simp only [Bool.and_eq_true, Bool.not_eq_true', decide_eq_true_eq] at hvar
      obtain ⟨⟨hv, hs⟩, hi⟩ := hvar
      rw [Option.some.injEq]
      constructor
      · rintro rfl
        cases helem : p.sliceElem? last.type with
        | some elem => exact .variadicElem hv hs hlast hi (sliceElem?_eq_some.mp helem)
        | none =>
          refine .variadicOther hv hs hlast hi ?_
          intro elem hform
          rw [sliceElem?_eq_some.mpr hform] at helem
          cases helem
      · intro h
        cases h with
        | param hfixed _ => simp [hv, hs, Nat.not_lt.mpr hi] at hfixed
        | variadicElem _ _ hlast' _ hform =>
          cases hlast.symm.trans hlast'
          rw [sliceElem?_eq_some.mpr hform, Option.getD_some]
        | variadicOther _ _ hlast' _ hform =>
          cases hlast.symm.trans hlast'
          cases helem : p.sliceElem? last.type with
          | some elem => exact absurd (sliceElem?_eq_some.mp helem) (hform elem)
          | none => rfl
    · rename_i hvar
      rw [Option.map_eq_some_iff]
      constructor
      · intro hbound
        obtain ⟨param, hparam, rfl⟩ := hbound
        refine .param ?_ hparam
        cases hv : sig.variadic <;> cases hs : spread <;> simp_all
      · intro h
        cases h with
        | param _ hparam => exact ⟨_, hparam, rfl⟩
        | variadicElem hv hs _ hi _ => simp [hv, hs, hi] at hvar
        | variadicOther hv hs _ hi _ => simp [hv, hs, hi] at hvar

theorem mem_argumentMarks {sig : Signature} {spread : Bool} {args : List Expr} {mark : Mark} :
    mark ∈ p.argumentMarks sig spread args ↔ ∃ i arg type object, args[i]? = some arg ∧
      p.Binds sig spread i type ∧ arg.Names object ∧ mark = .interface object type := by
  rw [argumentMarks_def, List.mem_flatten]
  constructor
  · intro h
    obtain ⟨marks, hmarks, hm⟩ := h
    obtain ⟨i, hi, rfl⟩ := List.mem_mapIdx.mp hmarks
    split at hm
    · rename_i type htype
      obtain ⟨object, hn, rfl⟩ := Expr.mem_marksAs.mp hm
      exact ⟨i, args[i], type, object, List.getElem?_eq_getElem hi,
        argumentType?_eq_some.mp htype, hn, rfl⟩
    · cases hm
  · intro h
    obtain ⟨i, arg, type, object, harg, hbinds, hn, rfl⟩ := h
    obtain ⟨hi, rfl⟩ := List.getElem?_eq_some_iff.mp harg
    refine ⟨_, List.mem_mapIdx.mpr ⟨i, hi, rfl⟩, ?_⟩
    rw [argumentType?_eq_some.mpr hbinds]
    exact Expr.mem_marksAs.mpr ⟨object, hn, rfl⟩

theorem wrappedParam?_eq_some {names : List String} {callee : Expr} {args : List Expr}
    {object : ObjectId} :
    p.wrappedParam? names callee args = some object ↔ p.Wraps names callee args object := by
  simp only [wrappedParam?_def, firstParam?_def, Wraps, Option.bind_eq_some_iff,
    Option.ite_none_right_eq_some, Option.any_eq_true, decide_eq_true_eq,
    Expr.calleeObject?_eq_some]
  constructor
  · intro hsome
    obtain ⟨f, hf, ⟨name, hname, hnames⟩, type, ⟨arg, harg, htype⟩, h⟩ := hsome
    split at h
    · rename_i sig hform
      obtain ⟨param, hparam, ho⟩ := Option.bind_eq_some_iff.mp h
      exact ⟨f, name, arg, type, sig, param, hf, hname, hnames, harg, htype, hform, hparam, ho⟩
    · cases h
  · intro hwraps
    obtain ⟨f, name, arg, type, sig, param, hf, hname, hnames, harg, htype, hform, hparam, ho⟩ :=
      hwraps
    refine ⟨f, hf, ⟨name, hname, hnames⟩, type, ⟨arg, harg, htype⟩, ?_⟩
    rw [hform]
    exact Option.bind_eq_some_iff.mpr ⟨param, hparam, ho⟩

theorem mem_elementMarks {fields : List StructField} {elements : List Expr} {mark : Mark} :
    mark ∈ elementMarks fields elements ↔
      (∃ key value elementType type object, ⟨.keyValue key value, elementType⟩ ∈ elements ∧
        key.type = some type ∧ value.Names object ∧ mark = .interface object type) ∨
      ∃ (i : Nat) (element : Expr) (field : StructField) (object : ObjectId),
        elements[i]? = some element ∧ fields[i]? = some field ∧ element.Names object ∧
          mark = .interface object field.type := by
  rw [elementMarks, List.mem_flatten]
  constructor
  · intro h
    obtain ⟨marks, hmarks, hm⟩ := h
    obtain ⟨i, hi, rfl⟩ := List.mem_mapIdx.mp hmarks
    split at hm
    · rename_i key value hform
      split at hm
      · rename_i type htype
        obtain ⟨object, hn, rfl⟩ := Expr.mem_marksAs.mp hm
        have hmem := List.getElem_mem hi
        generalize elements[i] = element at hform hmem
        obtain ⟨_, elementType⟩ := element
        cases hform
        exact .inl ⟨key, value, elementType, type, object, hmem, htype, hn, rfl⟩
      · cases hm
    · split at hm
      · rename_i field hfield
        obtain ⟨object, hn, rfl⟩ := Expr.mem_marksAs.mp hm
        exact .inr ⟨i, elements[i], field, object, List.getElem?_eq_getElem hi, hfield, hn, rfl⟩
      · cases hm
  · rintro (⟨key, value, elementType, type, object, hmem, htype, hn, rfl⟩ |
      ⟨i, element, field, object, helement, hfield, hn, rfl⟩)
    · obtain ⟨i, hi, he⟩ := List.getElem_of_mem hmem
      refine ⟨_, List.mem_mapIdx.mpr ⟨i, hi, rfl⟩, ?_⟩
      simp only [he, htype]
      exact Expr.mem_marksAs.mpr ⟨object, hn, rfl⟩
    · obtain ⟨hi, rfl⟩ := List.getElem?_eq_some_iff.mp helement
      refine ⟨_, List.mem_mapIdx.mpr ⟨i, hi, rfl⟩, ?_⟩
      split
      · rename_i key value hform
        generalize elements[i] = element at hn hform
        cases hn <;> cases hform
      · rw [hfield]
        exact Expr.mem_marksAs.mpr ⟨object, hn, rfl⟩

theorem calleeSignature_ok {callee : Expr} {found : Option Signature}
    (h : p.calleeSignature callee = .ok found) (sig : Signature) :
    found = some sig ↔ ∃ type c, callee.type = some type ∧ p.DefinedBy type c ∧
      p.form c = .signature sig := by
  rw [calleeSignature_def] at h
  split at h
  · rename_i htype
    split at h
    · cases h
      simp [htype]
    · cases h
  · rename_i type htype
    split at h
    · rename_i other hform
      cases h
      rw [Option.some.injEq]
      constructor
      · rintro rfl
        obtain ⟨c, hd, hc⟩ := (underlying_form rfl).mp hform
        exact ⟨type, c, htype, hd, hc⟩
      · intro htyped
        obtain ⟨_, c, he, hd, hc⟩ := htyped
        cases htype.symm.trans he
        cases hform.symm.trans ((underlying_form rfl).mpr ⟨c, hd, hc⟩)
        rfl
    · cases h

theorem calleeSignature_error {callee : Expr} {args : List Expr} {spread : Bool}
    {type : Option TypeId} :
    (∃ breach, p.calleeSignature callee = .error breach) ↔
      p.BreachAt ⟨.call callee args spread, type⟩ := by
  rw [calleeSignature_def]
  split
  · rename_i htype
    have hbuiltin : (callee.calleeObject?.any fun object => (p.object object).kind = .builtin) =
        true ↔ ∃ f, callee.RefersTo f ∧ (p.object f).kind = .builtin := by
      simp [Option.any_eq_true, ← Expr.calleeObject?_eq_some]
    split
    · rename_i hf
      obtain ⟨f, hf, hk⟩ := hbuiltin.mp hf
      constructor
      · intro hbreach
        obtain ⟨_, h⟩ := hbreach
        cases h
      · intro h
        cases h with
        | untypedCallee _ hn => exact absurd hk (hn f hf)
        | notAFunction he => cases htype.symm.trans he
    · rename_i hf
      exact ⟨fun _ => .untypedCallee htype fun f hr hk => hf (hbuiltin.mpr ⟨f, hr, hk⟩),
        fun _ => ⟨_, rfl⟩⟩
  · rename_i calleeType htype
    split
    · rename_i sig hform
      obtain ⟨c, hd, hc⟩ := (underlying_form rfl).mp hform
      constructor
      · intro hbreach
        obtain ⟨_, h⟩ := hbreach
        cases h
      · intro h
        cases h with
        | untypedCallee he => cases htype.symm.trans he
        | notAFunction he hn =>
          cases htype.symm.trans he
          exact absurd hc (hn c sig hd)
    · rename_i hform
      refine ⟨fun _ => .notAFunction htype ?_, fun _ => ⟨_, rfl⟩⟩
      intro c sig hd hc
      exact hform sig ((underlying_form rfl).mpr ⟨c, hd, hc⟩)

theorem callMarks_ok {callee : Expr} {args : List Expr} {spread : Bool} {marks : List Mark}
    (h : p.callMarks settings callee args spread = .ok marks) :
    ∃ arguments, (∀ mark, mark ∈ arguments ↔ ∃ type c sig, callee.type = some type ∧
        p.DefinedBy type c ∧ p.form c = .signature sig ∧
        mark ∈ p.argumentMarks sig spread args) ∧
      marks = arguments ++ callee.receiverMarks ++
        ((p.wrappedParam? settings.memoizeFunctions callee args).map .cached).toList ++
        ((p.wrappedParam? settings.keyParamFunctions callee args).map .dropped).toList := by
  rw [callMarks_def] at h
  cases hs : p.calleeSignature callee with
  | error breach =>
    rw [hs] at h
    cases h
  | ok found =>
    rw [hs] at h
    have hfound := calleeSignature_ok hs
    cases found with
    | none =>
      refine ⟨[], ?_, (Except.ok.inj h).symm⟩
      intro mark
      constructor
      · intro hm
        cases hm
      · intro htyped
        obtain ⟨type, c, sig, htype, hd, hc, _⟩ := htyped
        cases (hfound sig).mpr ⟨type, c, htype, hd, hc⟩
    | some sig =>
      refine ⟨p.argumentMarks sig spread args, ?_, (Except.ok.inj h).symm⟩
      intro mark
      constructor
      · intro hm
        obtain ⟨type, c, htype, hd, hc⟩ := (hfound sig).mp rfl
        exact ⟨type, c, sig, htype, hd, hc, hm⟩
      · intro htyped
        obtain ⟨type, c, other, htype, hd, hc, hm⟩ := htyped
        cases (hfound other).mpr ⟨type, c, htype, hd, hc⟩
        exact hm

theorem mem_callMarks {callee : Expr} {args : List Expr} {spread : Bool} {type : Option TypeId}
    {marks : List Mark} (h : p.callMarks settings callee args spread = .ok marks) {mark : Mark} :
    mark ∈ marks ↔
      (∃ object use, p.UsedAt settings ⟨.call callee args spread, type⟩ object use ∧
        mark = use.mark object) ∨
      ∃ object, p.DropsAt settings ⟨.call callee args spread, type⟩ object ∧
        mark = .dropped object := by
  obtain ⟨arguments, harguments, rfl⟩ := callMarks_ok h
  simp only [List.mem_append, harguments, mem_argumentMarks, Expr.mem_receiverMarks,
    Option.mem_toList, Option.map_eq_some_iff, wrappedParam?_eq_some]
  constructor
  · intro hsite
    rcases hsite with ((hargument | hreceiver) | ⟨object, hw, rfl⟩) | ⟨object, hw, rfl⟩
    · obtain ⟨_, c, sig, htype, hd, hc, i, arg, bound, object, hi, hb, hn, rfl⟩ := hargument
      exact .inl ⟨object, .interface bound, .argument htype hd hc hi hb hn, rfl⟩
    · obtain ⟨operand, member, object, hform, hn, rfl⟩ := hreceiver
      obtain ⟨_, calleeType⟩ := callee
      cases hform
      exact .inl ⟨object, .method member.name, .receiver hn, rfl⟩
    · exact .inl ⟨object, .cached, .memoized hw, rfl⟩
    · exact .inr ⟨object, .keyParams hw, rfl⟩
  · intro hsite
    rcases hsite with ⟨object, use, hused, rfl⟩ | ⟨object, hdrops, rfl⟩
    · cases hused with
      | argument htype hd hc hi hb hn =>
        exact .inl (.inl (.inl ⟨_, _, _, htype, hd, hc, _, _, _, _, hi, hb, hn, rfl⟩))
      | receiver hn => exact .inl (.inl (.inr ⟨_, _, _, rfl, hn, rfl⟩))
      | memoized hw => exact .inl (.inr ⟨_, hw, rfl⟩)
    · cases hdrops with
      | keyParams hw => exact .inr ⟨_, hw, rfl⟩

theorem mem_literalMarks (settings : Settings) (written : Option Expr) {elements : List Expr}
    {type : Option TypeId} {mark : Mark} : mark ∈ p.literalMarks type elements ↔
      ∃ object use, p.UsedAt settings ⟨.compositeLit written elements, type⟩ object use ∧
        mark = use.mark object := by
  constructor
  · intro h
    rw [literalMarks_def] at h
    split at h
    · rename_i fields hform
      obtain ⟨struct, rfl, hunder⟩ := Option.map_eq_some_iff.mp hform
      obtain ⟨c, hd, hc⟩ := (underlying_form rfl).mp hunder
      rcases mem_elementMarks.mp h with ⟨_, _, _, type, object, hm, htype, hn, rfl⟩ |
        ⟨_, _, field, object, hi, hfield, hn, rfl⟩
      · exact ⟨object, .interface type, .keyed hd hc hm htype hn, rfl⟩
      · exact ⟨object, .interface field.type, .positional hd hc hi hfield hn, rfl⟩
    · cases h
  · intro hsite
    obtain ⟨object, use, hused, rfl⟩ := hsite
    cases hused with
    | keyed hd hc hm htype hn =>
      have hform := (underlying_form rfl).mpr ⟨_, hd, hc⟩
      simp only [literalMarks_def, Option.map_some, hform]
      exact mem_elementMarks.mpr (.inl ⟨_, _, _, _, _, hm, htype, hn, rfl⟩)
    | positional hd hc hi hfield hn =>
      have hform := (underlying_form rfl).mpr ⟨_, hd, hc⟩
      simp only [literalMarks_def, Option.map_some, hform]
      exact mem_elementMarks.mpr (.inr ⟨_, _, _, _, hi, hfield, hn, rfl⟩)

/-- The marks of an expression are its sites. -/
theorem mem_marks {e : Expr} {marks : List Mark} (h : p.marks settings e = .ok marks)
    {mark : Mark} : mark ∈ marks ↔
      (∃ object use, p.UsedAt settings e object use ∧ mark = use.mark object) ∨
      ∃ object, p.DropsAt settings e object ∧ mark = .dropped object := by
  obtain ⟨form, type⟩ := e
  cases form with
  | call callee args spread => exact mem_callMarks h
  | compositeLit written elements =>
    rw [marks_def] at h
    cases h
    rw [mem_literalMarks settings written]
    refine ⟨.inl, ?_⟩
    intro hsite
    rcases hsite with hused | ⟨_, hdrops, _⟩
    · exact hused
    · cases hdrops
  | typeAssert operand target =>
    cases target with
    | none =>
      cases h
      constructor
      · intro hm
        cases hm
      · intro hsite
        rcases hsite with ⟨_, _, hused, _⟩ | ⟨_, hdrops, _⟩
        · cases hused
        · cases hdrops
    | some target =>
      cases h
      constructor
      · intro hm
        split at hm
        · rename_i asserted htype
          obtain ⟨object, hn, rfl⟩ := Expr.mem_marksAs.mp hm
          exact .inl ⟨object, .interface asserted, .asserted htype hn, rfl⟩
        · cases hm
      · intro hsite
        rcases hsite with ⟨object, _, hused, rfl⟩ | ⟨_, hdrops, _⟩
        · cases hused with
          | asserted htype hn =>
            rw [htype]
            exact Expr.mem_marksAs.mpr ⟨object, hn, rfl⟩
        · cases hdrops
  | _ =>
    cases h
    constructor
    · intro hm
      cases hm
    · intro hsite
      rcases hsite with ⟨_, _, hused, _⟩ | ⟨_, hdrops, _⟩
      · cases hused
      · cases hdrops

theorem mark_mem_marks {e : Expr} {marks : List Mark} (h : p.marks settings e = .ok marks)
    {object : ObjectId} {use : Use} :
    use.mark object ∈ marks ↔ p.UsedAt settings e object use := by
  rw [mem_marks h]
  constructor
  · intro hsite
    rcases hsite with ⟨other, use', hused, he⟩ | ⟨other, _, he⟩
    · obtain ⟨rfl, rfl⟩ := Use.mark_inj he
      exact hused
    · exact absurd he Use.mark_ne_dropped
  · intro hused
    exact .inl ⟨object, use, hused, rfl⟩

theorem dropped_mem_marks {e : Expr} {marks : List Mark} (h : p.marks settings e = .ok marks)
    {object : ObjectId} : .dropped object ∈ marks ↔ p.DropsAt settings e object := by
  rw [mem_marks h]
  constructor
  · intro hsite
    rcases hsite with ⟨other, use, _, he⟩ | ⟨other, hdrops, he⟩
    · exact absurd he.symm Use.mark_ne_dropped
    · cases he
      exact hdrops
  · intro hdrops
    exact .inr ⟨object, hdrops, rfl⟩

/-- What an expression drops comes after all that it uses. -/
theorem marks_order {e : Expr} {marks : List Mark} (h : p.marks settings e = .ok marks) :
    ∃ uses drops, marks = uses ++ drops ∧ (∀ object, .dropped object ∉ uses) ∧
      ∀ object (use : Use), use.mark object ∉ drops := by
  obtain ⟨form, type⟩ := e
  cases form with
  | call callee args spread =>
    obtain ⟨arguments, harguments, he⟩ := callMarks_ok h
    refine ⟨_, _, he, ?_, ?_⟩
    · intro object hm
      simp only [List.mem_append, harguments, mem_argumentMarks, Expr.mem_receiverMarks,
        Option.mem_toList, Option.map_eq_some_iff] at hm
      rcases hm with (⟨_, _, _, _, _, _, _, _, _, _, _, _, _, he⟩ | ⟨_, _, _, _, _, he⟩) |
        ⟨_, _, he⟩ <;> cases he
    · intro object use hm
      obtain ⟨_, _, he⟩ := Option.map_eq_some_iff.mp (Option.mem_toList.mp hm)
      exact Use.mark_ne_dropped he.symm
  | _ =>
    refine ⟨marks, [], (List.append_nil marks).symm, ?_, fun _ _ hm => nomatch hm⟩
    intro object hm
    cases (dropped_mem_marks h).mp hm

theorem marks_error {e : Expr} :
    (∃ breach, p.marks settings e = .error breach) ↔ p.BreachAt e := by
  obtain ⟨form, type⟩ := e
  cases form with
  | call callee args spread =>
    rw [← calleeSignature_error]
    simp only [marks_def, callMarks_def]
    cases p.calleeSignature callee with
    | error breach => exact ⟨fun _ => ⟨breach, rfl⟩, fun _ => ⟨breach, rfl⟩⟩
    | ok found =>
      constructor
      · intro hbreach
        obtain ⟨_, h⟩ := hbreach
        cases h
      · intro hbreach
        obtain ⟨_, h⟩ := hbreach
        cases h
  | typeAssert operand target =>
    constructor
    · intro hbreach
      obtain ⟨_, h⟩ := hbreach
      cases target <;> cases h
    · intro h
      cases h
  | _ =>
    constructor
    · intro hbreach
      obtain ⟨_, h⟩ := hbreach
      cases h
    · intro h
      cases h

end Program

end LeastContext

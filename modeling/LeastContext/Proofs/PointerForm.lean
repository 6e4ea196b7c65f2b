import LeastContext.Proofs.Promotion
import LeastContext.Proofs.Strict.Comparison

namespace LeastContext.Program

open Strict

variable {p : Program} {id : TypeId}

/-- A method declared on a type with a pointer receiver, as others see it. -/
def PointerMethod (p : Program) (id : TypeId) (method : Method) : Prop :=
  p.isInterface id = false ∧ ∃ decl declared, p.form id = .named decl ∧ declared ∈ decl.methods ∧
    declared.pointerReceiver = true ∧ (p.object declared.func).type = some method.signature ∧
    (p.object declared.func).methodKey = method.key

/-- A method with a pointer receiver gets in the way of a wanted one: a shortest chain leads to
it, but it is not the only one found there, or not what is wanted. -/
structure Obstructs (p : Program) (id : TypeId) (wanted : Method) (holder : TypeId)
    (method : Method) : Prop where
  pointer : p.PointerMethod holder method
  key_eq : method.key = wanted.key
  reached : ∃ fields, p.Shortest id wanted.key fields holder
  unfit : (∃ fields other, p.Shortest id wanted.key fields other ∧ other ≠ holder) ∨
    (p.ownMethods ⟨holder, true⟩).filter (·.key = wanted.key) ≠ [method] ∨
    p.identical method.signature wanted.signature = false

theorem PointerMethod.mem_ownMethods {method : Method} (h : p.PointerMethod id method) :
    method ∈ p.ownMethods ⟨id, true⟩ := by
  obtain ⟨hplain, decl, declared, hform, hmem, _, htype, hkey⟩ := h
  simp only [ownMethods_def, hplain, Bool.false_eq_true, if_false, declaredMethods_def, hform,
    Bool.true_or, List.filter_true, List.mem_filterMap]
  exact ⟨declared, hmem, by simp [htype, hkey]⟩

/-- Without a pointer receiver for a key, it makes no difference for the key whether a value of
the type is addressable. -/
theorem filter_ownMethods {key : MethodKey} (h : ∀ method, p.PointerMethod id method →
    method.key ≠ key) (addressable : Bool) :
    (p.ownMethods ⟨id, addressable⟩).filter (·.key = key) =
      (p.ownMethods ⟨id, true⟩).filter (·.key = key) := by
  cases hinterface : p.isInterface id with
  | true => simp [ownMethods_def, hinterface]
  | false =>
    cases hform : p.form id with
    | named decl =>
      simp only [ownMethods_def, hinterface, declaredMethods_def, hform, Bool.false_eq_true,
        if_false, List.filterMap_filter, List.filter_filterMap]
      refine List.filterMap_congr ?_
      intro declared hmem
      cases hpointer : declared.pointerReceiver with
      | false => simp
      | true =>
        -- its key is another one, so it is left out either way
        cases htype : (p.object declared.func).type with
        | none => simp
        | some signature =>
          have hne : (p.object declared.func).methodKey ≠ key :=
            h ⟨_, signature⟩ ⟨hinterface, decl, declared, hform, hmem, hpointer, htype, rfl⟩
          cases addressable <;> simp [Option.filter, hne]
    | _ => simp [ownMethods_def, hinterface, declaredMethods_def, hform]

/-- What a value brings, an addressable one brings too. -/
theorem Brings.offers {addressable : Bool} {key : MethodKey}
    (h : p.Brings ⟨id, addressable⟩ key) : p.Offers id key := by
  obtain ⟨method, hmem, hkey⟩ := h
  refine ⟨method, ?_, hkey⟩
  cases hinterface : p.isInterface id with
  | true => simpa [ownMethods_def, hinterface] using hmem
  | false =>
    cases hform : p.form id with
    | named decl =>
      simp only [ownMethods_def, hinterface, declaredMethods_def, hform, Bool.false_eq_true,
        if_false] at hmem ⊢
      obtain ⟨declared, hdeclared, hseen⟩ := List.mem_filterMap.mp hmem
      refine List.mem_filterMap.mpr ⟨declared, ?_, hseen⟩
      simp [(List.mem_filter.mp hdeclared).1]
    | _ => simp [ownMethods_def, hinterface, declaredMethods_def, hform] at hmem

theorem visits_start (addressable : Bool) : p.Visits id addressable 0 ⟨id, addressable⟩ := by
  refine ⟨[⟨id, addressable⟩], ?_, List.mem_singleton_self _⟩
  rw [visitsWithin]
  · simp [firstVisits]
  · simp

/-- An interface promotes its own methods. -/
theorem interfaceMethods_promoted (addressable : Bool) {method : Method}
    (hinterface : p.isInterface id = true) (h : method ∈ p.interfaceMethods id) :
    method ∈ p.promotedMethods id addressable := by
  have own : p.ownMethods ⟨id, addressable⟩ = p.interfaceMethods id := by
    simp [ownMethods_def, hinterface]
  rw [mem_promotedMethods]
  refine ⟨0, ⟨id, addressable⟩, visits_start addressable, ?_, ?_⟩
  · rw [own]
    exact Method.filter_key (interfaceMethods_keys id) h
  · intro m hm other hother _
    obtain rfl : m = 0 := Nat.le_zero.mp hm
    have htype : other.type = id := reaches_zero.mp hother.depth.1
    exact hother.unique (visits_start addressable) htype

/-- Where the chains lead to a method without a pointer receiver, a value that has a method of the
key gets it from the same type as a pointer. -/
theorem promoted_addressable (wf : p.WellFormed) {method : Method}
    (h : method ∈ p.promotedMethods id false)
    (plain : ∀ fields holder, p.Shortest id method.key fields holder →
      ∀ other, p.PointerMethod holder other → other.key ≠ method.key) :
    method ∈ p.promotedMethods id true := by
  obtain ⟨n, visit, hvisit, hone, hsole⟩ := mem_promotedMethods.mp h
  have hbrings := brings_of_once hone
  obtain ⟨chain, hchain, rfl⟩ := hvisit.depth.1
  -- the value meets the end of every shortest chain, and finds the key there as well
  have sole : ∀ fields holder, p.Shortest id method.key fields holder → holder = visit.type := by
    intro fields holder hs
    obtain ⟨other, hother, rfl⟩ := hs.depth.visited wf false
    have hle : fields.length ≤ chain.length := hs.least chain visit.type hchain hbrings.offers
    have hfound : p.Brings other method.key := by
      by_contra hno
      rw [← not_brings, filter_ownMethods (plain fields other.type hs), not_brings] at hno
      exact hno hs.offers
    rw [hsole fields.length hle other hother hfound]
  obtain ⟨fields, holder, hs⟩ := exists_shortest hchain hbrings.offers
  obtain rfl := sole fields holder hs
  refine (mem_promotedMethods_iff wf).mpr ⟨visit.type, ⟨fields, hs⟩, sole, ?_⟩
  rw [← filter_ownMethods (plain fields visit.type hs) visit.addressable]
  exact hone

/-- A value of a named type that satisfies an interface promotes all that the interface wants. -/
theorem promotes_of_implements {interface : TypeId} (named : (p.form id).isNamed = true)
    (h : p.implements id interface = true) : p.isInterface interface = true ∧
      ∀ wanted ∈ p.interfaceMethods interface, p.Provides (p.promotedMethods id false) wanted := by
  rw [implements_def] at h
  split at h
  · rename_i he
    subst he
    refine ⟨h, ?_⟩
    intro wanted hwanted
    exact ⟨wanted, interfaceMethods_promoted false h hwanted, rfl, identical_self _⟩
  · obtain ⟨hinterface, hprovides⟩ := satisfies_iff.mp h
    refine ⟨hinterface, ?_⟩
    intro wanted hwanted
    obtain ⟨method, hmem, hfits⟩ := hprovides wanted hwanted
    refine ⟨method, ?_, hfits⟩
    rw [methodSet_def] at hmem
    split at hmem
    · rename_i hi
      exact interfaceMethods_promoted false hi hmem
    · cases hform : p.form id with
      | named decl => simpa [hform] using hmem
      | _ => simp [hform, TypeForm.isNamed] at named

section Obstruction

variable {wanted : Method} (wf : p.WellFormed)
include wf

theorem Obstructs.not_provides {holder : TypeId} {method : Method}
    (h : p.Obstructs id wanted holder method) :
    ¬ p.Provides (p.promotedMethods id true) wanted := by
  intro hprovides
  obtain ⟨found, hmem, hkey, hidentical⟩ := hprovides
  obtain ⟨provider, _, hsole, hone⟩ := (mem_promotedMethods_iff wf).mp hmem
  rw [hkey] at hsole hone
  obtain ⟨fields, hs⟩ := h.reached
  obtain rfl := hsole fields holder hs
  -- the method with the pointer receiver is the one that is promoted
  obtain rfl : method = found := by
    have hin : method ∈ (p.ownMethods ⟨holder, true⟩).filter (·.key = wanted.key) :=
      List.mem_filter.mpr ⟨h.pointer.mem_ownMethods, decide_eq_true h.key_eq⟩
    rw [hone] at hin
    exact List.mem_singleton.mp hin
  rcases h.unfit with ⟨fields, other, hother, hne⟩ | hmore | hdifferent
  · exact hne (hsole fields other hother)
  · exact hmore hone
  · rw [hidentical] at hdifferent
    cases hdifferent

theorem provides_of_unobstructed (free : ∀ holder method, ¬ p.Obstructs id wanted holder method)
    (h : p.Provides (p.promotedMethods id false) wanted) :
    p.Provides (p.promotedMethods id true) wanted := by
  obtain ⟨method, hmem, hkey, hidentical⟩ := h
  by_cases plain : ∀ fields holder, p.Shortest id method.key fields holder →
      ∀ other, p.PointerMethod holder other → other.key ≠ method.key
  · exact ⟨method, promoted_addressable wf hmem plain, hkey, hidentical⟩
  · -- a method with a pointer receiver comes first, and nothing is wrong with it
    push Not at plain
    obtain ⟨fields, holder, hs, other, hpointer, hother⟩ := plain
    rw [hkey] at hs hother
    have hfit : ¬ ((∃ fields other, p.Shortest id wanted.key fields other ∧ other ≠ holder) ∨
        (p.ownMethods ⟨holder, true⟩).filter (·.key = wanted.key) ≠ [other] ∨
        p.identical other.signature wanted.signature = false) :=
      fun unfit => free holder other ⟨hpointer, hother, ⟨fields, hs⟩, unfit⟩
    push Not at hfit
    obtain ⟨hsole, hone, hsame⟩ := hfit
    refine ⟨other, ?_, hother, by simpa using hsame⟩
    rw [mem_promotedMethods_iff wf, hother]
    exact ⟨holder, ⟨fields, hs⟩, hsole, hone⟩

end Obstruction

/-- A pointer to a named type satisfies an interface that a value of the type satisfies, exactly
if no method with a pointer receiver gets in the way of one that the interface wants. That the value
satisfies it is found, and so is the answer for the pointer unless a comparison has no end. -/
theorem pointer_covers_value_iff (p : Program) (valid : p.defect? = none) {id interface : TypeId}
    (named : (p.form id).isNamed = true) (h : p.implements id interface = true) :
    (p.pointerImplements id interface = true ↔ ∀ wanted ∈ p.interfaceMethods interface,
      ∀ holder method, ¬ p.Obstructs id wanted holder method) ∧
      p.implementsM (m := Strict) id interface = .ok true ∧
      (p.pointerImplements id interface = true →
        p.pointerImplementsM (m := Strict) id interface = .ok true) ∧
      Follows p.Unsettled (p.pointerImplementsM id interface)
        (p.pointerImplements id interface) := by
  have wf := WellFormed.of_defect? valid
  obtain ⟨hinterface, hvalue⟩ := promotes_of_implements named h
  obtain ⟨body, hbody⟩ := isInterface_iff.mp hinterface
  have hid := resolves_of_isNamed named
  have hresolves := resolves_of_interface hbody
  refine ⟨?_, implementsM_of_implements wf hid hresolves h,
    pointerImplementsM_of_pointerImplements wf hid hresolves,
    pointerImplementsM_follows wf hid hresolves⟩
  rw [pointerImplements_def, satisfies_iff]
  constructor
  · intro hpointer wanted hwanted holder method hobstructs
    exact hobstructs.not_provides wf (hpointer.2 wanted hwanted)
  · intro free
    refine ⟨hinterface, ?_⟩
    intro wanted hwanted
    exact provides_of_unobstructed wf (free wanted hwanted) (hvalue wanted hwanted)

/-- `T` embeds `A`, which has a method `M`, and `B`, which has one with a pointer receiver. -/
def rivals : Program where
  package := ⟨0⟩
  packages := #[⟨"app", "app"⟩]
  types := #[
    .signature ⟨[], [], false⟩,
    .struct [],
    .named ⟨"A", some ⟨0⟩, ⟨1⟩, [⟨⟨0⟩, false⟩]⟩,
    .named ⟨"B", some ⟨0⟩, ⟨1⟩, [⟨⟨1⟩, true⟩]⟩,
    .struct [⟨"A", ⟨2⟩, true⟩, ⟨"B", ⟨3⟩, true⟩],
    .named ⟨"T", some ⟨0⟩, ⟨4⟩, []⟩,
    .interface ⟨[⟨"M", none, ⟨0⟩⟩], []⟩,
    .named ⟨"I", some ⟨0⟩, ⟨6⟩, []⟩]
  objects := #[
    ⟨"M", .method ⟨2⟩, some ⟨0⟩, some ⟨0⟩, none⟩,
    ⟨"M", .method ⟨3⟩, some ⟨0⟩, some ⟨0⟩, none⟩]
  files := []

theorem rivals_valid : rivals.defect? = none := by
  decide +kernel

theorem rivals_implements : rivals.implements ⟨5⟩ ⟨7⟩ = true := by
  decide +kernel

/-- A value of `T` satisfies `I` and a pointer to `T` does not: for it `M` is ambiguous. -/
theorem rivals_value_only : rivals.defect? = none ∧ (rivals.form ⟨5⟩).isNamed = true ∧
    rivals.implementsM (m := Strict) ⟨5⟩ ⟨7⟩ = .ok true ∧
    rivals.pointerImplementsM (m := Strict) ⟨5⟩ ⟨7⟩ = .ok false :=
  ⟨rivals_valid, rfl, by decide +kernel, by decide +kernel⟩

/-- What keeps a pointer to `T` from satisfying `I` is a method with a pointer receiver. -/
theorem rivals_obstructed : rivals.defect? = none ∧ (rivals.form ⟨5⟩).isNamed = true ∧
    rivals.implements ⟨5⟩ ⟨7⟩ = true ∧ ∃ wanted ∈ rivals.interfaceMethods ⟨7⟩,
      ∃ holder method, rivals.Obstructs ⟨5⟩ wanted holder method := by
  refine ⟨rivals_valid, rfl, rivals_implements, ?_⟩
  by_contra free
  push Not at free
  have covered := (pointer_covers_value_iff rivals rivals_valid rfl rivals_implements).1.mpr free
  exact absurd covered (by decide +kernel)

end LeastContext.Program

import LeastContext.Proofs.Satisfaction
import LeastContext.Proofs.Strict.MethodSets

namespace LeastContext

namespace Strict

theorem lift_bind {α β : Type} (a : α) (f : α → OptionT Strict β) :
    ((liftM (Except.ok a : Strict α) : OptionT Strict α) >>= f) = f a :=
  rfl

variable {α : Type} {askM : α → OptionT Strict Bool} {ask : α → Option Bool} {xs : List α}

theorem allM_run (h : ∀ x ∈ xs, (askM x).run = .ok (ask x)) :
    (xs.allM askM).run = .ok (xs.allM ask) := by
  induction xs with
  | nil => rfl
  | cons x xs ih =>
    have hrest := ih fun y hy => h y (List.mem_cons_of_mem _ hy)
    rw [List.allM, List.allM, OptionT.run_bind, h x List.mem_cons_self]
    cases ask x with
    | none => rfl
    | some answer =>
      cases answer with
      | false => rfl
      | true => exact hrest

theorem anyM_run (h : ∀ x ∈ xs, (askM x).run = .ok (ask x)) :
    (xs.anyM askM).run = .ok (xs.anyM ask) := by
  induction xs with
  | nil => rfl
  | cons x xs ih =>
    have hrest := ih fun y hy => h y (List.mem_cons_of_mem _ hy)
    rw [List.anyM, List.anyM, OptionT.run_bind, h x List.mem_cons_self]
    cases ask x with
    | none => rfl
    | some answer =>
      cases answer with
      | true => rfl
      | false => exact hrest

end Strict

open Strict

namespace Program

/-- The faults of comparisons that have no end. -/
def Unsettled (p : Program) (fault : Fault) : Prop :=
  ∃ a b, fault = .unsettled a b ∧ ¬ p.Settles a b

variable {p : Program}

theorem ok_of_settled {run : Strict α} {value : α} (settled : ∀ a b, p.Settles a b)
    (h : Follows p.Unsettled run value) : run = .ok value := by
  rcases h with h | ⟨_, ⟨a, b, _, unsettled⟩, _⟩
  · exact h
  · exact absurd (settled a b) unsettled

section WellFormed

variable (wf : p.WellFormed)
include wf

/-- A comparison looks up none but types of the program. -/
theorem identicalWithinM_run {depth : Nat} {a b : TypeId} (ha : p.resolves (.type a))
    (hb : p.resolves (.type b)) :
    (p.identicalWithinM (m := Strict) depth a b).run = .ok (p.identicalWithin depth a b) := by
  induction depth generalizing a b with
  | zero => rfl
  | succ depth ih =>
    rw [identicalWithinM, identicalWithin_next]
    split
    · rfl
    · rw [formM_ok ha, lift_bind, formM_ok hb, lift_bind]
      cases hfa : p.form a <;> cases hfb : p.form b <;> try rfl
      case pointer.pointer x y =>
        exact ih (part_resolves wf hfa .pointerElem) (part_resolves wf hfb .pointerElem)
      case slice.slice x y =>
        exact ih (part_resolves wf hfa .sliceElem) (part_resolves wf hfb .sliceElem)
      case array.array m x n y =>
        dsimp only
        split
        · exact ih (part_resolves wf hfa .arrayElem) (part_resolves wf hfb .arrayElem)
        · rfl
      case map.map k x l y =>
        apply allM_run
        intro pair hpair
        simp only [List.mem_cons, List.not_mem_nil, or_false] at hpair
        rcases hpair with rfl | rfl
        · exact ih (part_resolves wf hfa .mapKey) (part_resolves wf hfb .mapKey)
        · exact ih (part_resolves wf hfa .mapValue) (part_resolves wf hfb .mapValue)
      case signature.signature s t =>
        dsimp only
        split
        · apply allM_run
          intro pair hpair
          obtain ⟨hc, hd⟩ := List.of_mem_zip hpair
          exact ih (part_resolves wf hfa (TypeForm.mem_parts.mp hc))
            (part_resolves wf hfb (TypeForm.mem_parts.mp hd))
        · rfl
      case struct.struct fs gs =>
        dsimp only
        split
        · apply allM_run
          intro pair hpair
          obtain ⟨hf, hg⟩ := List.of_mem_zip hpair
          split
          · exact ih (part_resolves wf hfa (.field hf)) (part_resolves wf hfb (.field hg))
          · rfl
        · rfl
      case interface.interface body body' =>
        simp only [interfaceMethodsM_ok wf ha, interfaceMethodsM_ok wf hb, lift_bind]
        split
        · apply allM_run
          intro m hm
          apply anyM_run
          intro n hn
          split
          · exact ih (interfaceMethod_resolves wf hm) (interfaceMethod_resolves wf hn)
          · rfl
        · rfl

theorem identicalM_eq {a b : TypeId} (ha : p.resolves (.type a)) (hb : p.resolves (.type b)) :
    p.identicalM (m := Strict) a b =
      match p.identical? a b with
      | some answer => .ok answer
      | none => .error (.unsettled a b) := by
  rw [identicalM, identicalWithinM_run wf ha hb]
  rfl

theorem identicalM_follows {a b : TypeId} (ha : p.resolves (.type a))
    (hb : p.resolves (.type b)) :
    Follows p.Unsettled (p.identicalM a b) (p.identical a b) := by
  rw [identicalM_eq wf ha hb, identical_def]
  cases h : p.identical? a b with
  | some answer => exact .inl rfl
  | none =>
    refine .inr ⟨_, ⟨a, b, rfl, ?_⟩, rfl⟩
    simp [settles_iff wf, h]

theorem identicalM_of_identical {a b : TypeId} (ha : p.resolves (.type a))
    (hb : p.resolves (.type b)) (h : p.identical a b = true) :
    p.identicalM (m := Strict) a b = .ok true := by
  rw [identicalM_eq wf ha hb]
  rw [identical_def] at h
  cases hanswer : p.identical? a b with
  | none => simp [hanswer] at h
  | some answer => simp_all

theorem satisfiesM_follows {methods : List Method} {interface : TypeId}
    (hm : ∀ method ∈ methods, p.resolves (.type method.signature))
    (h : p.resolves (.type interface)) :
    Follows p.Unsettled (p.satisfiesM methods interface) (p.satisfies methods interface) := by
  rw [satisfiesM, satisfies_def, isInterfaceM_ok wf h, ok_bind]
  cases p.isInterface interface with
  | false => exact .inl rfl
  | true =>
    rw [if_pos rfl, interfaceMethodsM_ok wf h, ok_bind, Bool.true_and]
    refine .allM fun wanted hwanted => .anyM fun method hmethod => ?_
    split
    · rename_i hkey
      simpa [hkey] using
        identicalM_follows wf (hm method hmethod) (interfaceMethod_resolves wf hwanted)
    · rename_i hkey
      simp [hkey, Follows]

/-- What a list of methods provides, it is found to provide: of the methods only the one with the
wanted key is compared. -/
theorem satisfiesM_of_satisfies {methods : List Method} {interface : TypeId}
    (keys : (methods.map Method.key).Nodup)
    (hm : ∀ method ∈ methods, p.resolves (.type method.signature))
    (h : p.resolves (.type interface)) (satisfied : p.satisfies methods interface = true) :
    p.satisfiesM (m := Strict) methods interface = .ok true := by
  obtain ⟨hinterface, provided⟩ := satisfies_iff.mp satisfied
  have tested : ∀ wanted ∈ p.interfaceMethods interface, ∀ method ∈ methods,
      (if method.key = wanted.key then p.identicalM (m := Strict) method.signature wanted.signature
        else return false) = .ok (decide (method.key = wanted.key)) := by
    intro wanted hwanted method hmethod
    split
    · next hkey =>
      obtain ⟨found, hfound, hsame, hidentical⟩ := provided wanted hwanted
      obtain rfl := List.inj_on_of_nodup_map keys hfound hmethod (hsame.trans hkey.symm)
      rw [identicalM_of_identical wf (hm _ hmethod) (interfaceMethod_resolves wf hwanted)
        hidentical]
      simp [hkey]
    · next hkey => simp [hkey]
  have found : (p.interfaceMethods interface).all (fun wanted =>
      methods.any fun method => method.key = wanted.key) = true := by
    simp only [List.all_eq_true, List.any_eq_true, decide_eq_true_eq]
    intro wanted hwanted
    obtain ⟨method, hmethod, hkey, _⟩ := provided wanted hwanted
    exact ⟨method, hmethod, hkey⟩
  rw [satisfiesM, isInterfaceM_ok wf h, hinterface, ok_bind, if_pos rfl, interfaceMethodsM_ok wf h,
    ok_bind, allM_ok fun wanted hwanted => anyM_ok (tested wanted hwanted), found]

theorem implementsM_follows {id interface : TypeId} (hid : p.resolves (.type id))
    (h : p.resolves (.type interface)) :
    Follows p.Unsettled (p.implementsM id interface) (p.implements id interface) := by
  rw [implementsM, implements_def]
  split
  · exact .inl (isInterfaceM_ok wf h)
  · rw [methodSetM_ok wf hid, ok_bind]
    exact satisfiesM_follows wf (fun _ hm => method_resolves wf hm) h

theorem implementsM_of_implements {id interface : TypeId} (hid : p.resolves (.type id))
    (h : p.resolves (.type interface)) (implemented : p.implements id interface = true) :
    p.implementsM (m := Strict) id interface = .ok true := by
  rw [implementsM]
  rw [implements_def] at implemented
  split at implemented
  · next hsame => rw [if_pos hsame, isInterfaceM_ok wf h, implemented]
  · next hne =>
    rw [if_neg hne, methodSetM_ok wf hid, ok_bind]
    exact satisfiesM_of_satisfies wf (methodSet_keys id) (fun _ hm => method_resolves wf hm) h
      implemented

theorem pointerImplementsM_follows {named interface : TypeId} (hn : p.resolves (.type named))
    (h : p.resolves (.type interface)) :
    Follows p.Unsettled (p.pointerImplementsM named interface)
      (p.pointerImplements named interface) := by
  rw [pointerImplementsM, pointerImplements_def, promotedMethodsM_ok wf hn, ok_bind]
  exact satisfiesM_follows wf (fun _ hm => promoted_resolves wf hm) h

theorem pointerImplementsM_of_pointerImplements {named interface : TypeId}
    (hn : p.resolves (.type named)) (h : p.resolves (.type interface))
    (implemented : p.pointerImplements named interface = true) :
    p.pointerImplementsM (m := Strict) named interface = .ok true := by
  rw [pointerImplementsM, promotedMethodsM_ok wf hn, ok_bind]
  exact satisfiesM_of_satisfies wf (promotedMethods_keys named true)
    (fun _ hm => promoted_resolves wf hm) h implemented

end WellFormed

end Program

end LeastContext

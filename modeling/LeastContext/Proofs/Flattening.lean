import LeastContext.Proofs.EmbedWalks
import LeastContext.Proofs.MethodSets

namespace LeastContext

namespace Method

variable {methods more rest : List Method}

theorem addNew_append :
    addNew methods (more ++ rest) = addNew (addNew methods more) rest := by
  induction more generalizing methods with
  | nil => rfl
  | cons first more ih =>
    rw [List.cons_append, addNew, addNew]
    split
    · exact ih
    · exact ih

/-- Methods whose keys are there already add nothing. -/
theorem addNew_known (known : ∀ method ∈ more, method.key ∈ methods.map Method.key) :
    addNew methods more = methods := by
  induction more with
  | nil => rfl
  | cons first more ih =>
    obtain ⟨found, hfound, hkey⟩ := List.mem_map.mp (known first List.mem_cons_self)
    have hany : methods.any (·.key = first.key) = true :=
      List.any_eq_true.mpr ⟨found, hfound, decide_eq_true hkey⟩
    rw [addNew, if_pos hany]
    exact ih fun method hm => known method (List.mem_cons_of_mem _ hm)

theorem mem_keys_addNew {key : MethodKey} : key ∈ (addNew methods more).map Method.key ↔
    key ∈ methods.map Method.key ∨ key ∈ more.map Method.key := by
  induction more generalizing methods with
  | nil => simp [addNew]
  | cons first more ih =>
    rw [addNew]
    split
    · rename_i hany
      obtain ⟨found, hfound, hkey⟩ := List.any_eq_true.mp hany
      have hold : first.key ∈ methods.map Method.key :=
        List.mem_map.mpr ⟨found, hfound, of_decide_eq_true hkey⟩
      rw [ih, List.map_cons, List.mem_cons]
      constructor
      · intro h
        exact h.imp_right .inr
      · intro h
        rcases h with h | rfl | h
        · exact .inl h
        · exact .inl hold
        · exact .inr h
    · rw [ih, List.map_append, List.mem_append, List.map_singleton, List.mem_singleton,
        List.map_cons, List.mem_cons, or_assoc]

end Method

namespace Program

variable {p : Program} {id x : TypeId}

/-- The methods written in the interface that a type stands for. -/
def writtenMethods (p : Program) (id : TypeId) : List Method :=
  match p.interface? id with
  | some body => body.methods.map fun method => ⟨method.key, method.signature⟩
  | none => []

/-- The methods that a walk through all embeds meets, as often as it meets them. -/
def metMethods (p : Program) (id : TypeId) : List Method :=
  (p.embedWalk (fun _ => false) id).flatMap p.writtenMethods

theorem writtenMethods_of_none (h : p.interface? id = none) : p.writtenMethods id = [] := by
  simp [writtenMethods, h]

theorem writtenMethods_of_body {body : Interface} (h : p.interface? id = some body) :
    p.writtenMethods id = body.methods.map fun method => ⟨method.key, method.signature⟩ := by
  simp [writtenMethods, h]

theorem mem_writtenMethods {method : Method} :
    method ∈ p.writtenMethods id ↔ p.Declares id method := by
  cases hbody : p.interface? id with
  | none => simp [writtenMethods, Declares, hbody]
  | some body =>
    simp only [writtenMethods, Declares, hbody, List.mem_map, Option.some.injEq,
      exists_eq_left']
    exact exists_congr fun written => and_congr_right fun _ => eq_comm

/-- All that a walk from a type meets has been found under its key. -/
def Exhausted (p : Program) (state : Flattening) (id : TypeId) : Prop :=
  ∀ method ∈ p.metMethods id, method.key ∈ state.methods.map Method.key

/-- What flattening makes of a state: the methods met are added, and the types visited on the way
are exhausted. -/
structure Flattens (p : Program) (before : Flattening) (met : List Method) (after : Flattening) :
    Prop where
  methods : after.methods = Method.addNew before.methods met
  visited : ∀ x ∈ after.visited, x ∈ before.visited ∨ p.Exhausted after x

theorem Exhausted.grow {before after : Flattening} {met : List Method}
    (h : p.Exhausted before x) (step : after.methods = Method.addNew before.methods met) :
    p.Exhausted after x := by
  intro method hm
  rw [step, Method.mem_keys_addNew]
  exact .inl (h method hm)

theorem Flattens.trans {s t u : Flattening} {met more : List Method} (h : p.Flattens s met t)
    (h' : p.Flattens t more u) : p.Flattens s (met ++ more) u := by
  refine ⟨?_, ?_⟩
  · rw [h'.methods, h.methods, Method.addNew_append]
  · intro x hx
    rcases h'.visited x hx with hx | hx
    · exact (h.visited x hx).imp_right fun he => he.grow h'.methods
    · exact .inr hx

/-- Entering a type: its own methods come before what its embeds add, and then it is exhausted. -/
theorem Flattens.enter {before after : Flattening} {below : List Method}
    (hmet : p.metMethods id = p.writtenMethods id ++ below)
    (h : p.Flattens ⟨id :: before.visited, Method.addNew before.methods (p.writtenMethods id)⟩
      below after) : p.Flattens before (p.metMethods id) after := by
  have hmethods : after.methods = Method.addNew before.methods (p.metMethods id) := by
    rw [h.methods, hmet, Method.addNew_append]
  have hdone : p.Exhausted after id := by
    intro method hm
    rw [hmethods, Method.mem_keys_addNew]
    exact .inr (List.mem_map_of_mem hm)
  refine ⟨hmethods, ?_⟩
  intro x hx
  rcases h.visited x hx with hx | hx
  · rcases List.mem_cons.mp hx with rfl | hx
    · exact .inr hdone
    · exact .inl hx
  · exact .inr hx

/-- Going through embeds one after the other. The types visited below one of them are exhausted
when its turn comes. -/
theorem flattenAll_flattens {depth : Nat} {embeds : List TypeId} {state : Flattening}
    (one : ∀ e ∈ embeds, ∀ state : Flattening,
      (∀ x ∈ state.visited, Relation.ReflTransGen p.Embeds e x → p.Exhausted state x) →
        p.Flattens state (p.metMethods e) (p.flattenWithin depth state e))
    (known : ∀ x ∈ state.visited, ∀ e ∈ embeds, Relation.ReflTransGen p.Embeds e x →
      p.Exhausted state x) :
    p.Flattens state (embeds.flatMap p.metMethods)
      (embeds.foldl (p.flattenWithin depth) state) := by
  induction embeds generalizing state with
  | nil => exact ⟨rfl, fun x hx => .inl hx⟩
  | cons e embeds ih =>
    have hfirst : p.Flattens state (p.metMethods e) (p.flattenWithin depth state e) :=
      one e List.mem_cons_self state fun x hx => known x hx e List.mem_cons_self
    rw [List.flatMap_cons, List.foldl_cons]
    apply hfirst.trans
    apply ih
    · exact fun other ho => one other (List.mem_cons_of_mem _ ho)
    · intro x hx other ho hreach
      rcases hfirst.visited x hx with hx | hx
      · exact (known x hx other (List.mem_cons_of_mem _ ho) hreach).grow hfirst.methods
      · exact hx

section WellFormed

variable (wf : p.WellFormed)
include wf

theorem metMethods_eq (id : TypeId) :
    p.metMethods id = p.writtenMethods id ++ (p.embeds id).flatMap p.metMethods := by
  rw [metMethods, embedWalk_eq wf, if_neg Bool.false_ne_true, List.flatMap_cons,
    List.flatMap_assoc]
  rfl

theorem mem_metMethods {method : Method} : method ∈ p.metMethods id ↔
    ∃ e, Relation.ReflTransGen p.Embeds id e ∧ p.Declares e method := by
  simp only [metMethods, List.mem_flatMap, mem_embedWalk wf, enters_everything,
    mem_writtenMethods]

theorem flattenWithin_flattens {depth : Nat} {state : Flattening}
    (shallow : Digraph.Shallow p.embeds depth id)
    (known : ∀ x ∈ state.visited, Relation.ReflTransGen p.Embeds id x → p.Exhausted state x) :
    p.Flattens state (p.metMethods id) (p.flattenWithin depth state id) := by
  induction depth generalizing state id with
  | zero => exact shallow.elim
  | succ depth ih =>
    have hmet := metMethods_eq wf id
    rw [flattenWithin_succ]
    split
    · rename_i hvisited
      exact ⟨(Method.addNew_known (known id hvisited .refl)).symm, fun x hx => .inl hx⟩
    · split
      · rename_i hnone
        apply Flattens.enter hmet
        rw [writtenMethods_of_none hnone, embeds_of_none hnone]
        exact ⟨rfl, fun x hx => .inl hx⟩
      · rename_i body hbody
        have hembeds : p.embeds id = body.embeds := embeds_of_body hbody
        apply Flattens.enter hmet
        rw [writtenMethods_of_body hbody, hembeds]
        apply flattenAll_flattens
        · intro e he state known
          exact ih (shallow.next (hembeds ▸ he)) known
        · -- the type itself is not met again below its embeds
          intro x hx e he hreach
          have step : p.Embeds id e := .of_body hbody he
          rcases List.mem_cons.mp hx with rfl | hx
          · exact absurd rfl (embeds_irrefl wf step hreach)
          · have hdone : p.Exhausted state x := known x hx (.head step hreach)
            exact hdone.grow rfl

/-- The methods of an interface are those that a walk through all embeds meets, each key where it
is met first. -/
theorem interfaceMethods_eq (id : TypeId) :
    p.interfaceMethods id = Method.addNew [] (p.metMethods id) := by
  have hflattens : p.Flattens ⟨[], []⟩ (p.metMethods id)
      (p.flattenWithin (p.types.size + 1) ⟨[], []⟩ id) :=
    flattenWithin_flattens wf (embeds_shallow wf id) (by simp)
  exact hflattens.methods

/-- An interface has the keys that are declared anywhere below it. -/
theorem key_mem_interfaceMethods {key : MethodKey} :
    key ∈ (p.interfaceMethods id).map Method.key ↔
      ∃ e method, Relation.ReflTransGen p.Embeds id e ∧ p.Declares e method ∧
        method.key = key := by
  rw [interfaceMethods_eq wf, Method.mem_keys_addNew, List.map_nil, List.mem_map]
  simp only [List.not_mem_nil, false_or, mem_metMethods wf]
  constructor
  · intro h
    obtain ⟨method, ⟨e, hreach, hdecl⟩, hkey⟩ := h
    exact ⟨e, method, hreach, hdecl, hkey⟩
  · intro h
    obtain ⟨e, method, hreach, hdecl, hkey⟩ := h
    exact ⟨method, ⟨e, hreach, hdecl⟩, hkey⟩

end WellFormed

end Program

end LeastContext

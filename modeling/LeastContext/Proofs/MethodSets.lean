import LeastContext.Method.Set
import LeastContext.Proofs.WellFormed

namespace LeastContext

namespace Method

theorem filter_key {methods : List Method} {method : Method}
    (keys : (methods.map Method.key).Nodup) (h : method ∈ methods) :
    methods.filter (·.key = method.key) = [method] := by
  induction methods with
  | nil => cases h
  | cons first methods ih =>
    obtain ⟨hfirst, hmore⟩ := List.nodup_cons.mp keys
    rcases List.mem_cons.mp h with rfl | h
    · have hothers : methods.filter (·.key = method.key) = [] := by
        rw [List.filter_eq_nil_iff]
        intro other hother he
        exact hfirst (List.mem_map.mpr ⟨other, hother, of_decide_eq_true he⟩)
      simp [hothers]
    · have hne : first.key ≠ method.key := by
        intro he
        exact hfirst (List.mem_map.mpr ⟨method, h, he.symm⟩)
      simpa [hne] using ih hmore h

theorem mem_addNew {method : Method} {methods more : List Method}
    (h : method ∈ addNew methods more) : method ∈ methods ∨ method ∈ more := by
  induction more generalizing methods with
  | nil => exact .inl h
  | cons first more ih =>
    rw [addNew] at h
    split at h
    · exact (ih h).imp_right (List.mem_cons_of_mem _)
    · rcases ih h with h | h
      · rcases List.mem_append.mp h with h | h
        · exact .inl h
        · exact .inr (List.mem_singleton.mp h ▸ List.mem_cons_self)
      · exact .inr (List.mem_cons_of_mem _ h)

theorem addNew_keys {methods more : List Method} (h : (methods.map Method.key).Nodup) :
    ((addNew methods more).map Method.key).Nodup := by
  induction more generalizing methods with
  | nil => exact h
  | cons first more ih =>
    rw [addNew]
    split
    · exact ih h
    · rename_i hnew
      apply ih
      rw [List.map_append, List.nodup_append]
      refine ⟨h, List.nodup_singleton _, ?_⟩
      rintro key hkey _ hfirst rfl
      obtain ⟨method, hm, rfl⟩ := List.mem_map.mp hkey
      refine hnew (List.any_eq_true.mpr ⟨method, hm, ?_⟩)
      simpa using hfirst

end Method

/-- Two states of flattening that cannot be told apart by a set of types. -/
def Flattening.Agree (inside : TypeId → Prop) (s t : Flattening) : Prop :=
  (∀ x, inside x → (x ∈ s.visited ↔ x ∈ t.visited)) ∧ s.methods = t.methods

namespace Program

variable {p : Program}

/-- A method written in the interface that a type stands for. -/
def Declares (p : Program) (id : TypeId) (method : Method) : Prop :=
  ∃ body, p.interface? id = some body ∧
    ∃ written ∈ body.methods, method = ⟨written.key, written.signature⟩

theorem flattenWithin_sound {depth : Nat} {state : Flattening} {id : TypeId} {method : Method}
    (h : method ∈ (p.flattenWithin depth state id).methods) :
    method ∈ state.methods ∨
      ∃ e, Relation.ReflTransGen p.Embeds id e ∧ p.Declares e method := by
  induction depth generalizing state id with
  | zero => exact .inl h
  | succ depth ih =>
    rw [flattenWithin_succ] at h
    split at h
    · exact .inl h
    · split at h
      · exact .inl h
      · rename_i body hbody
        revert h
        refine List.foldlRecOn (motive := fun result : Flattening => method ∈ result.methods →
          method ∈ state.methods ∨ ∃ e, Relation.ReflTransGen p.Embeds id e ∧ p.Declares e method)
          body.embeds _ ?_ ?_
        · intro h
          refine (Method.mem_addNew h).imp_right ?_
          intro hm
          obtain ⟨written, hw, rfl⟩ := List.mem_map.mp hm
          exact ⟨id, .refl, body, hbody, written, hw, rfl⟩
        · intro result hresult embed hembed h
          rcases ih h with h | ⟨e, hreach, hdecl⟩
          · exact hresult h
          · have step : p.Embeds id embed := .of_body hbody hembed
            exact .inr ⟨e, .head step hreach, hdecl⟩

theorem flattenWithin_keys {depth : Nat} {state : Flattening} {id : TypeId}
    (h : (state.methods.map Method.key).Nodup) :
    ((p.flattenWithin depth state id).methods.map Method.key).Nodup := by
  induction depth generalizing state id with
  | zero => exact h
  | succ depth ih =>
    rw [flattenWithin_succ]
    split
    · exact h
    · split
      · exact h
      · rename_i body _
        refine List.foldlRecOn (motive := fun result : Flattening =>
          (result.methods.map Method.key).Nodup) body.embeds _ (Method.addNew_keys h) ?_
        intro result hresult _ _
        exact ih hresult

theorem mem_interfaceMethods {id : TypeId} {method : Method} (h : method ∈ p.interfaceMethods id) :
    ∃ e, Relation.ReflTransGen p.Embeds id e ∧ p.Declares e method := by
  rw [interfaceMethods_def] at h
  rcases flattenWithin_sound h with h | h
  · cases h
  · exact h

theorem interfaceMethods_keys (id : TypeId) :
    ((p.interfaceMethods id).map Method.key).Nodup := by
  rw [interfaceMethods_def]
  exact flattenWithin_keys List.nodup_nil

/-- Flattening does not see what was visited outside of the types it can reach. -/
theorem flattenWithin_agree {inside : TypeId → Prop}
    (closed : ∀ a b, inside a → p.Embeds a b → inside b) {depth : Nat} {s t : Flattening}
    {id : TypeId} (hid : inside id) (h : Flattening.Agree inside s t) :
    Flattening.Agree inside (p.flattenWithin depth s id) (p.flattenWithin depth t id) := by
  induction depth generalizing s t id with
  | zero => exact h
  | succ depth ih =>
    have entered : ∀ x, inside x → (x ∈ id :: s.visited ↔ x ∈ id :: t.visited) := by
      intro x hx
      simp only [List.mem_cons, h.1 x hx]
    rw [flattenWithin_succ, flattenWithin_succ]
    by_cases hv : id ∈ s.visited
    · rw [if_pos hv, if_pos ((h.1 id hid).mp hv)]
      exact h
    · rw [if_neg hv, if_neg (fun ht => hv ((h.1 id hid).mpr ht))]
      cases hbody : p.interface? id with
      | none => exact ⟨entered, h.2⟩
      | some body =>
        refine List.foldl_rel ⟨entered, by rw [h.2]⟩ ?_
        intro e he u v huv
        exact ih (closed id e hid (.of_body hbody he)) huv

theorem candidates_keys {candidates : List Candidate} (method : Method)
    (h : (candidates.map (·.method.key)).Nodup) :
    ((Candidate.add candidates method).map (·.method.key)).Nodup ∧
      ∀ key ∈ (Candidate.add candidates method).map (·.method.key),
        key = method.key ∨ key ∈ candidates.map (·.method.key) := by
  induction candidates with
  | nil => simp [Candidate.add]
  | cons first more ih =>
    obtain ⟨hfirst, hmore⟩ := List.nodup_cons.mp h
    rw [Candidate.add]
    split
    · exact ⟨h, fun key hkey => .inr hkey⟩
    · rename_i hne
      obtain ⟨hnodup, hkeys⟩ := ih hmore
      refine ⟨List.nodup_cons.mpr ⟨?_, hnodup⟩, ?_⟩
      · intro hin
        rcases hkeys _ hin with he | hin
        · exact hne he
        · exact hfirst hin
      · intro key hkey
        rcases List.mem_cons.mp hkey with rfl | hkey
        · exact .inr List.mem_cons_self
        · exact (hkeys key hkey).imp_right (List.mem_cons_of_mem _)

theorem found_keys (level : List Reached) (seen : List TypeId) :
    ((level.foldl p.scan ⟨seen, [], []⟩).found.map (·.method.key)).Nodup := by
  refine List.foldlRecOn (motive := fun result : LevelScan =>
    (result.found.map (·.method.key)).Nodup) level _ ?_ ?_
  · exact List.nodup_nil
  · intro result hresult reached _
    rw [scan_def]
    split
    · exact hresult
    · refine List.foldlRecOn (motive := fun found : List Candidate =>
        (found.map (·.method.key)).Nodup) (p.ownMethods reached) _ hresult ?_
      intro found hfound method _
      exact (candidates_keys method hfound).1

/-- Promotion gives each key once and none that is hidden. -/
theorem promoteWithin_keys {depth : Nat} {seen : List TypeId} {hidden : List MethodKey}
    {level : List Reached} :
    ((p.promoteWithin depth seen hidden level).map Method.key).Nodup ∧
      ∀ method ∈ p.promoteWithin depth seen hidden level, method.key ∉ hidden := by
  induction depth generalizing seen hidden level with
  | zero =>
    rw [promoteWithin_zero]
    exact ⟨List.nodup_nil, by simp⟩
  | succ depth ih =>
    simp only [promoteWithin_succ]
    set result := level.foldl p.scan ⟨seen, [], []⟩
    set fresh := result.found.filter fun candidate => candidate.method.key ∉ hidden
    obtain ⟨hnodup, hunseen⟩ := ih 
    have hfresh : (fresh.map (·.method.key)).Nodup :=
      (found_keys level seen).sublist (List.filter_sublist.map _)
    have hsingle : (((fresh.filter (·.count = 1)).map (·.method)).map Method.key).Nodup := by
      rw [List.map_map]
      exact hfresh.sublist (List.filter_sublist.map _)
    refine ⟨?_, ?_⟩
    · rw [List.map_append, List.nodup_append]
      refine ⟨hsingle, hnodup, ?_⟩
      rintro key hkey _ hdeep rfl
      obtain ⟨method, hm, rfl⟩ := List.mem_map.mp hkey
      obtain ⟨candidate, hc, rfl⟩ := List.mem_map.mp hm
      obtain ⟨deep, hd, he⟩ := List.mem_map.mp hdeep
      refine hunseen deep hd (List.mem_append_left _ ?_)
      exact he ▸ List.mem_map_of_mem (List.mem_filter.mp hc).1
    · intro method hm
      rcases List.mem_append.mp hm with hm | hm
      · obtain ⟨candidate, hc, rfl⟩ := List.mem_map.mp hm
        simpa using (List.mem_filter.mp (List.mem_filter.mp hc).1).2
      · exact fun hin => hunseen method hm (List.mem_append_right _ hin)

theorem promotedMethods_keys (id : TypeId) (addressable : Bool) :
    ((p.promotedMethods id addressable).map Method.key).Nodup :=
  promoteWithin_keys.1

theorem methodSet_keys (id : TypeId) : ((p.methodSet id).map Method.key).Nodup := by
  rw [methodSet_def]
  split
  · exact interfaceMethods_keys id
  · split
    · exact promotedMethods_keys _ _
    · exact promotedMethods_keys _ _
    · exact promotedMethods_keys _ _
    · exact List.nodup_nil

section WellFormed

variable (wf : p.WellFormed)
include wf

/-- The methods of an interface are a matter of its body. Neither of two interfaces with one body
is met below it, so that either has been visited makes no difference. -/
theorem interfaceMethods_congr {a b : TypeId} {body : Interface}
    (ha : p.interface? a = some body) (hb : p.interface? b = some body) :
    p.interfaceMethods a = p.interfaceMethods b := by
  let below x := ∃ e ∈ body.embeds, Relation.ReflTransGen p.Embeds e x
  have closed : ∀ x y, below x → p.Embeds x y → below y := by
    intro x y hx step
    obtain ⟨e, he, hreach⟩ := hx
    exact ⟨e, he, hreach.tail step⟩
  have apart : ∀ x, below x → (x ∈ [a] ↔ x ∈ [b]) := by
    intro x hx
    obtain ⟨e, he, hreach⟩ := hx
    have never : ∀ c, p.interface? c = some body → x ≠ c := by
      rintro _ hc rfl
      have step : p.Embeds x e := .of_body hc he
      exact wf.embeds_acyclic x (.head' step hreach)
    simp [never a ha, never b hb]
  have hfold : Flattening.Agree below (p.flattenWithin (p.types.size + 1) ⟨[], []⟩ a)
      (p.flattenWithin (p.types.size + 1) ⟨[], []⟩ b) := by
    simp only [flattenWithin_succ, List.not_mem_nil, if_false, ha, hb]
    refine List.foldl_rel ⟨apart, rfl⟩ ?_
    intro e he s t hst
    exact flattenWithin_agree closed ⟨e, he, .refl⟩ hst
  exact hfold.2

theorem interfaceMethods_inside {id : TypeId} {method : Method}
    (h : method ∈ p.interfaceMethods id) : method.signature.index < p.types.size := by
  obtain ⟨e, _, body, hbody, written, hw, rfl⟩ := mem_interfaceMethods h
  obtain ⟨c, _, hform⟩ := interface?_eq_some.mp hbody
  refine part_inside wf.resolved (a := c) ?_
  rw [hform]
  exact .method hw

end WellFormed

end Program

end LeastContext

import LeastContext.Proofs.MethodSets
import Mathlib.Data.List.Nodup
import Mathlib.Data.Nat.Find

namespace LeastContext.Program

/-- A field, by its number, of the struct that a type stands for is embedded. -/
def EmbeddedField (p : Program) (a : TypeId) (i : Nat) (field : StructField) : Prop :=
  ∃ fields, p.form (p.underlying a) = .struct fields ∧ fields[i]? = some field ∧
    field.embedded = true

/-- An embedded field leads to its type or, if that is a pointer, to the element. -/
inductive EmbedsField (p : Program) : TypeId → Nat → TypeId → Prop where
  | value {a i} {field : StructField} : p.EmbeddedField a i field →
      (∀ elem, p.form field.type ≠ .pointer elem) → EmbedsField p a i field.type
  | pointer {a i elem} {field : StructField} : p.EmbeddedField a i field →
      p.form field.type = .pointer elem → EmbedsField p a i elem

/-- A chain of embedded fields that leads from a type to another. -/
inductive FieldChain (p : Program) : TypeId → List Nat → TypeId → Prop where
  | here {a} : FieldChain p a [] a
  | through {a i b fields c} :
      p.EmbedsField a i b → FieldChain p b fields c → FieldChain p a (i :: fields) c

/-- Some chain of a length leads from a type to another. -/
def Reaches (p : Program) (a : TypeId) (n : Nat) (b : TypeId) : Prop :=
  ∃ fields, p.FieldChain a fields b ∧ fields.length = n

/-- The shortest chains from a type to another have a length. -/
def Depth (p : Program) (a : TypeId) (n : Nat) (b : TypeId) : Prop :=
  p.Reaches a n b ∧ ∀ m < n, ¬ p.Reaches a m b

variable {p : Program} {id a b c : TypeId} {n : Nat}

theorem EmbeddedField.unique {i : Nat} {field other : StructField}
    (h : p.EmbeddedField a i field) (h' : p.EmbeddedField a i other) : field = other := by
  obtain ⟨fields, hform, hi, _⟩ := h
  obtain ⟨fields', hform', hi', _⟩ := h'
  obtain rfl := TypeForm.struct.inj (hform.symm.trans hform')
  exact Option.some.inj (hi.symm.trans hi')

theorem EmbedsField.unique {i : Nat} (h : p.EmbedsField a i b) (h' : p.EmbedsField a i c) :
    b = c := by
  cases h with
  | value hf hvalue =>
    cases h' with
    | value hf' _ => rw [hf.unique hf']
    | pointer hf' hpointer => exact absurd (hf.unique hf' ▸ hpointer) (hvalue _)
  | pointer hf hpointer =>
    cases h' with
    | value hf' hvalue => exact absurd (hf'.unique hf ▸ hpointer) (hvalue _)
    | pointer hf' hpointer' =>
      rw [hf.unique hf', hpointer'] at hpointer
      exact TypeForm.pointer.inj hpointer.symm

theorem mem_embeddedFields {addressable : Bool} :
    (∃ next ∈ p.embeddedFields ⟨a, addressable⟩, next.type = b) ↔ ∃ i, p.EmbedsField a i b := by
  constructor
  · intro h
    obtain ⟨next, hnext, rfl⟩ := h
    rw [embeddedFields_def] at hnext
    split at hnext
    · rename_i fields hform
      obtain ⟨field, hf, rfl⟩ := List.mem_map.mp hnext
      obtain ⟨hf, hembedded⟩ := List.mem_filter.mp hf
      obtain ⟨i, hi⟩ := List.mem_iff_getElem?.mp hf
      have hfield : p.EmbeddedField a i field := ⟨fields, hform, hi, hembedded⟩
      split
      · rename_i elem hpointer
        exact ⟨i, .pointer hfield hpointer⟩
      · rename_i hvalue
        exact ⟨i, .value hfield hvalue⟩
    · cases hnext
  · intro h
    obtain ⟨i, h⟩ := h
    cases h with
    | value hfield hvalue =>
      obtain ⟨fields, hform, hi, hembedded⟩ := hfield
      have hf := List.mem_filter.mpr ⟨List.mem_of_getElem? hi, hembedded⟩
      rw [embeddedFields_def, hform]
      refine ⟨_, List.mem_map_of_mem hf, ?_⟩
      split
      · rename_i elem hpointer
        exact absurd hpointer (hvalue elem)
      · rfl
    | pointer hfield hpointer =>
      obtain ⟨fields, hform, hi, hembedded⟩ := hfield
      have hf := List.mem_filter.mpr ⟨List.mem_of_getElem? hi, hembedded⟩
      rw [embeddedFields_def, hform]
      refine ⟨_, List.mem_map_of_mem hf, ?_⟩
      rw [hpointer]

section Chains

/-- The fields of a chain decide where it leads. -/
theorem FieldChain.unique {fields : List Nat} (h : p.FieldChain a fields b)
    (h' : p.FieldChain a fields c) : b = c := by
  induction h with
  | here =>
    cases h'
    rfl
  | through first _ ih =>
    cases h' with
    | through first' rest' =>
      obtain rfl := first.unique first'
      exact ih rest'

theorem FieldChain.extend {fields : List Nat} {i : Nat} (h : p.FieldChain a fields b)
    (step : p.EmbedsField b i c) : p.FieldChain a (fields ++ [i]) c := by
  induction h with
  | here => exact .through step .here
  | through first _ ih => exact .through first (ih step)

theorem FieldChain.last {fields : List Nat} (h : p.FieldChain a fields c) (ne : fields ≠ []) :
    ∃ b i, p.FieldChain a fields.dropLast b ∧ p.EmbedsField b i c := by
  induction h with
  | here => exact absurd rfl ne
  | @through a i b fields c first rest ih =>
    cases rest with
    | here => exact ⟨a, i, .here, first⟩
    | through second rest =>
      obtain ⟨d, j, hchain, hlast⟩ := ih (by simp)
      exact ⟨d, j, .through first hchain, hlast⟩

theorem reaches_zero : p.Reaches a 0 b ↔ b = a := by
  constructor
  · intro h
    obtain ⟨fields, hchain, hlength⟩ := h
    cases hchain with
    | here => rfl
    | through => cases hlength
  · rintro rfl
    exact ⟨[], .here, rfl⟩

theorem reaches_succ :
    p.Reaches a (n + 1) c ↔ ∃ b i, p.Reaches a n b ∧ p.EmbedsField b i c := by
  constructor
  · intro h
    obtain ⟨fields, hchain, hlength⟩ := h
    have hne : fields ≠ [] := by
      rintro rfl
      cases hlength
    obtain ⟨b, i, hinit, hlast⟩ := hchain.last hne
    exact ⟨b, i, ⟨fields.dropLast, hinit, by simp [hlength]⟩, hlast⟩
  · intro h
    obtain ⟨b, i, ⟨fields, hchain, hlength⟩, step⟩ := h
    exact ⟨fields ++ [i], hchain.extend step, by simp [hlength]⟩

theorem Depth.unique {m : Nat} (h : p.Depth a n b) (h' : p.Depth a m b) : n = m := by
  rcases Nat.lt_trichotomy n m with hlt | rfl | hlt
  · exact absurd h.1 (h'.2 n hlt)
  · rfl
  · exact absurd h'.1 (h.2 m hlt)

/-- Whatever is reached has a depth, which no chain undercuts. -/
theorem Reaches.depth (h : p.Reaches a n b) : ∃ m ≤ n, p.Depth a m b := by
  classical
  have some : ∃ m, p.Reaches a m b := ⟨n, h⟩
  exact ⟨Nat.find some, Nat.find_min' some h, Nat.find_spec some, fun _ => Nat.find_min some⟩

/-- A type of some depth is embedded in one that is one less deep. -/
theorem Depth.previous (h : p.Depth a (n + 1) c) : ∃ b i, p.Depth a n b ∧ p.EmbedsField b i c := by
  obtain ⟨b, i, hb, step⟩ := reaches_succ.mp h.1
  refine ⟨b, i, ⟨hb, ?_⟩, step⟩
  intro m hm hreach
  exact h.2 (m + 1) (by omega) (reaches_succ.mpr ⟨b, i, hreach, step⟩)

theorem embedsField_inside (wf : p.WellFormed) {i : Nat} (h : p.EmbedsField a i b) :
    b.index < p.types.size := by
  cases h with
  | value hfield _ =>
    obtain ⟨fields, hform, hi, _⟩ := hfield
    refine part_inside wf.resolved (a := p.underlying a) ?_
    rw [hform]
    exact .field (List.mem_of_getElem? hi)
  | @pointer _ field _ hpointer =>
    refine part_inside wf.resolved (a := field.type) ?_
    rw [hpointer]
    exact .pointerElem

/-- The types on a shortest chain are all different. -/
theorem Depth.path (wf : p.WellFormed) (h : p.Depth a n b) : ∃ path : List TypeId,
    path.length = n ∧ path.Nodup ∧
      ∀ x ∈ path, x.index < p.types.size ∧ ∃ m ≤ n, p.Depth a m x := by
  induction n generalizing b with
  | zero => exact ⟨[], rfl, List.nodup_nil, by simp⟩
  | succ n ih =>
    obtain ⟨c, i, hc, step⟩ := h.previous
    obtain ⟨path, hlength, hnodup, hpath⟩ := ih hc
    refine ⟨b :: path, by simp [hlength], List.nodup_cons.mpr ⟨?_, hnodup⟩, ?_⟩
    · intro hb
      obtain ⟨_, m, hm, hdepth⟩ := hpath b hb
      have := h.unique hdepth
      omega
    · intro x hx
      rcases List.mem_cons.mp hx with rfl | hx
      · exact ⟨embedsField_inside wf step, n + 1, Nat.le_refl _, h⟩
      · obtain ⟨hinside, m, hm, hdepth⟩ := hpath x hx
        exact ⟨hinside, m, by omega, hdepth⟩

theorem Depth.le_types (wf : p.WellFormed) (h : p.Depth a n b) : n ≤ p.types.size := by
  obtain ⟨path, rfl, hnodup, hpath⟩ := h.path wf
  have hsub : path ⊆ p.typeIds := fun x hx => mem_typeIds.mpr (hpath x hx).1
  simpa [typeIds] using hnodup.length_le_of_subset hsub

end Chains

/-- The entries of a level with types that have not been seen, each type once. -/
def firstVisits (seen : List TypeId) : List Reached → List Reached
  | [] => []
  | reached :: level =>
    if reached.type ∈ seen then firstVisits seen level
    else reached :: firstVisits (reached.type :: seen) level

/-- What promotion visits, level by level. -/
def visitsWithin (p : Program) : Nat → List TypeId → List Reached → List (List Reached)
  | 0, _, _ => []
  | _, _, [] => []
  | depth + 1, seen, level =>
    let visits := firstVisits seen level
    visits :: visitsWithin p depth ((visits.map (·.type)).reverse ++ seen)
      (visits.flatMap p.embeddedFields)

/-- Promotion from a type visits an entry on a level. -/
def Visits (p : Program) (id : TypeId) (addressable : Bool) (n : Nat) (reached : Reached) : Prop :=
  ∃ visits, (p.visitsWithin (p.types.size + 1) [] [⟨id, addressable⟩])[n]? = some visits ∧
    reached ∈ visits

theorem firstVisits_subset {seen : List TypeId} {level : List Reached} {reached : Reached}
    (h : reached ∈ firstVisits seen level) : reached ∈ level ∧ reached.type ∉ seen := by
  induction level generalizing seen with
  | nil => cases h
  | cons first level ih =>
    rw [firstVisits] at h
    split at h
    · exact (ih h).imp_left (List.mem_cons_of_mem _)
    · rename_i hfresh
      rcases List.mem_cons.mp h with rfl | h
      · exact ⟨List.mem_cons_self, hfresh⟩
      · obtain ⟨hmem, hunseen⟩ := ih h
        exact ⟨List.mem_cons_of_mem _ hmem, fun hs => hunseen (List.mem_cons_of_mem _ hs)⟩

theorem firstVisits_types {seen : List TypeId} {level : List Reached} {reached : Reached}
    (h : reached ∈ level) :
    reached.type ∈ seen ∨ ∃ visit ∈ firstVisits seen level, visit.type = reached.type := by
  induction level generalizing seen with
  | nil => cases h
  | cons first level ih =>
    rw [firstVisits]
    split
    · rename_i hseen
      rcases List.mem_cons.mp h with rfl | h
      · exact .inl hseen
      · exact ih h
    · rcases List.mem_cons.mp h with rfl | h
      · exact .inr ⟨reached, List.mem_cons_self, rfl⟩
      · have later : reached.type ∈ first.type :: seen ∨ _ := ih h
        rcases later with hs | ⟨visit, hv, he⟩
        · rcases List.mem_cons.mp hs with he | hs
          · exact .inr ⟨first, List.mem_cons_self, he.symm⟩
          · exact .inl hs
        · exact .inr ⟨visit, List.mem_cons_of_mem _ hv, he⟩

theorem firstVisits_nodup (seen : List TypeId) (level : List Reached) :
    ((firstVisits seen level).map (·.type)).Nodup := by
  induction level generalizing seen with
  | nil => exact List.nodup_nil
  | cons first level ih =>
    rw [firstVisits]
    split
    · exact ih seen
    · rw [List.map_cons, List.nodup_cons]
      refine ⟨?_, ih _⟩
      intro h
      obtain ⟨visit, hv, he⟩ := List.mem_map.mp h
      exact (firstVisits_subset hv).2 (he ▸ List.mem_cons_self)

/-- Scanning a level comes to visiting its new types. -/
theorem scan_eq (level : List Reached) (state : LevelScan) : level.foldl p.scan state =
    { seen := ((firstVisits state.seen level).map (·.type)).reverse ++ state.seen
      found := ((firstVisits state.seen level).flatMap p.ownMethods).foldl Candidate.add state.found
      next := state.next ++ (firstVisits state.seen level).flatMap p.embeddedFields } := by
  induction level generalizing state with
  | nil => simp [firstVisits]
  | cons first level ih =>
    rw [List.foldl_cons, ih, firstVisits]
    by_cases hseen : first.type ∈ state.seen
    · simp [scan_def, hseen]
    · simp [scan_def, hseen, List.foldl_append, List.append_assoc]

/-- How far promotion from a type has come: it has seen what is less than `n` deep, and the next
level holds all that chains of length `n` lead to beyond that. -/
structure Frontier (p : Program) (id : TypeId) (n : Nat) (seen : List TypeId)
    (level : List Reached) : Prop where
  passed : ∀ x, x ∈ seen ↔ ∃ m < n, p.Reaches id m x
  sound : ∀ reached ∈ level, p.Reaches id n reached.type
  complete : ∀ x, p.Reaches id n x → x ∈ seen ∨ ∃ reached ∈ level, reached.type = x

namespace Frontier

variable {seen : List TypeId} {level : List Reached}

theorem start (p : Program) (id : TypeId) (addressable : Bool) :
    p.Frontier id 0 [] [⟨id, addressable⟩] := by
  refine ⟨by simp, ?_, ?_⟩
  · intro reached h
    rw [List.mem_singleton.mp h]
    exact reaches_zero.mpr rfl
  · intro x h
    exact .inr ⟨_, List.mem_singleton_self _, (reaches_zero.mp h).symm⟩

theorem mem_visits (h : p.Frontier id n seen level) {x : TypeId} :
    (∃ visit ∈ firstVisits seen level, visit.type = x) ↔ p.Depth id n x := by
  constructor
  · intro hvisit
    obtain ⟨visit, hv, rfl⟩ := hvisit
    obtain ⟨hlevel, hunseen⟩ := firstVisits_subset hv
    refine ⟨h.sound visit hlevel, ?_⟩
    intro m hm hreach
    exact hunseen ((h.passed visit.type).mpr ⟨m, hm, hreach⟩)
  · intro hdepth
    have hunseen : x ∉ seen := by
      intro hs
      obtain ⟨m, hm, hreach⟩ := (h.passed x).mp hs
      exact hdepth.2 m hm hreach
    rcases h.complete x hdepth.1 with hs | ⟨reached, hr, rfl⟩
    · exact absurd hs hunseen
    · exact (firstVisits_types hr).resolve_left hunseen

theorem next (h : p.Frontier id n seen level) :
    p.Frontier id (n + 1) (((firstVisits seen level).map (·.type)).reverse ++ seen)
      ((firstVisits seen level).flatMap p.embeddedFields) := by
  have visited : ∀ x, x ∈ ((firstVisits seen level).map (·.type)).reverse ++ seen ↔
      ∃ m < n + 1, p.Reaches id m x := by
    intro x
    rw [List.mem_append, List.mem_reverse, List.mem_map, h.mem_visits, h.passed]
    constructor
    · rintro (hdepth | ⟨m, hm, hreach⟩)
      · exact ⟨n, Nat.lt_succ_self n, hdepth.1⟩
      · exact ⟨m, by omega, hreach⟩
    · intro hreach
      obtain ⟨m, hm, hreach⟩ := hreach
      obtain ⟨k, hk, hdepth⟩ := hreach.depth
      by_cases hkn : k = n
      · exact .inl (hkn ▸ hdepth)
      · exact .inr ⟨k, by omega, hdepth.1⟩
  refine ⟨visited, ?_, ?_⟩
  · intro reached hr
    obtain ⟨visit, hv, hr⟩ := List.mem_flatMap.mp hr
    obtain ⟨i, step⟩ := mem_embeddedFields.mp ⟨reached, hr, rfl⟩
    have hreach := h.sound visit (firstVisits_subset hv).1
    exact reaches_succ.mpr ⟨visit.type, i, hreach, step⟩
  · intro x hx
    obtain ⟨b, i, hb, step⟩ := reaches_succ.mp hx
    obtain ⟨k, hk, hdepth⟩ := hb.depth
    by_cases hkn : k = n
    · -- its struct is visited on this level
      obtain ⟨visit, hv, rfl⟩ := h.mem_visits.mpr (hkn ▸ hdepth)
      obtain ⟨reached, hr, he⟩ := mem_embeddedFields.mpr ⟨i, step⟩
      exact .inr ⟨reached, List.mem_flatMap.mpr ⟨visit, hv, hr⟩, he⟩
    · -- its struct was visited before, so it is not new
      exact .inl ((visited x).mpr ⟨k + 1, by omega, reaches_succ.mpr ⟨b, i, hdepth.1, step⟩⟩)

/-- With nothing on the next level there is nothing deeper. -/
theorem nothing_deeper (h : p.Frontier id n seen []) (k : Nat) (x : TypeId) :
    ¬ p.Depth id (n + k) x := by
  induction k generalizing x with
  | zero =>
    intro hdepth
    obtain ⟨_, hv, _⟩ := h.mem_visits.mpr hdepth
    cases hv
  | succ k ih =>
    intro hdepth
    obtain ⟨b, _, hb, _⟩ := hdepth.previous
    exact ih b hb

/-- The levels visited from here on, as far as the fuel goes, are the types by their depth. -/
theorem mem_visitsWithin {fuel k : Nat} (h : p.Frontier id n seen level) {x : TypeId} :
    (∃ visits, (p.visitsWithin fuel seen level)[k]? = some visits ∧
      ∃ visit ∈ visits, visit.type = x) ↔ k < fuel ∧ p.Depth id (n + k) x := by
  induction fuel generalizing n seen level k with
  | zero => simp [visitsWithin]
  | succ fuel ih =>
    cases level with
    | nil => simp [visitsWithin, h.nothing_deeper k x]
    | cons first level =>
      rw [visitsWithin]
      · cases k with
        | zero => simp [← h.mem_visits]
        | succ k =>
          rw [List.getElem?_cons_succ, ih h.next, Nat.add_right_comm, Nat.add_assoc,
            Nat.succ_lt_succ_iff]
      · simp

end Frontier

theorem visits_iff {addressable : Bool} :
    (∃ visit, p.Visits id addressable n visit ∧ visit.type = b) ↔
      n < p.types.size + 1 ∧ p.Depth id n b := by
  have levels : (∃ visits, (p.visitsWithin (p.types.size + 1) [] [⟨id, addressable⟩])[n]? =
      some visits ∧ ∃ visit ∈ visits, visit.type = b) ↔
        n < p.types.size + 1 ∧ p.Depth id (0 + n) b :=
    (Frontier.start p id addressable).mem_visitsWithin
  rw [Nat.zero_add] at levels
  rw [← levels]
  constructor
  · intro h
    obtain ⟨visit, ⟨visits, hvisits, hv⟩, he⟩ := h
    exact ⟨visits, hvisits, visit, hv, he⟩
  · intro h
    obtain ⟨visits, hvisits, visit, hv, he⟩ := h
    exact ⟨visit, ⟨visits, hvisits, hv⟩, he⟩

theorem Visits.depth {addressable : Bool} {visit : Reached}
    (h : p.Visits id addressable n visit) : p.Depth id n visit.type :=
  (visits_iff.mp ⟨visit, h, rfl⟩).2

/-- The fuel is enough for every type to be visited at its depth. -/
theorem Depth.visited (wf : p.WellFormed) (addressable : Bool) (h : p.Depth id n b) :
    ∃ visit, p.Visits id addressable n visit ∧ visit.type = b :=
  visits_iff.mpr ⟨Nat.lt_succ_of_le (h.le_types wf), h⟩

theorem visitsWithin_nodup {fuel : Nat} {seen : List TypeId} {level visits : List Reached}
    (h : visits ∈ p.visitsWithin fuel seen level) : (visits.map (·.type)).Nodup := by
  fun_induction visitsWithin p fuel seen level with
  | case1 => cases h
  | case2 => cases h
  | case3 fuel seen level _ first ih =>
    rcases List.mem_cons.mp h with rfl | h
    · exact firstVisits_nodup seen level
    · exact ih h

/-- Promotion visits a type once. -/
theorem Visits.unique {addressable : Bool} {m : Nat} {visit other : Reached}
    (h : p.Visits id addressable n visit) (h' : p.Visits id addressable m other)
    (same : visit.type = other.type) : visit = other := by
  obtain rfl := h.depth.unique (same ▸ h'.depth)
  obtain ⟨visits, hvisits, hv⟩ := h
  obtain ⟨others, hothers, ho⟩ := h'
  obtain rfl := Option.some.inj (hvisits.symm.trans hothers)
  exact List.inj_on_of_nodup_map (visitsWithin_nodup (List.mem_of_getElem? hvisits)) hv ho same

theorem visitsWithin_addressable {fuel : Nat} {seen : List TypeId} {level visits : List Reached}
    (all : ∀ reached ∈ level, reached.addressable = true)
    (h : visits ∈ p.visitsWithin fuel seen level) :
    ∀ visit ∈ visits, visit.addressable = true := by
  fun_induction visitsWithin p fuel seen level with
  | case1 => cases h
  | case2 => cases h
  | case3 fuel seen level _ first ih =>
    have here : ∀ visit ∈ first, visit.addressable = true :=
      fun visit hv => all visit (firstVisits_subset hv).1
    rcases List.mem_cons.mp h with rfl | h
    · exact here
    · refine ih ?_ h
      intro reached hr
      obtain ⟨visit, hv, hr⟩ := List.mem_flatMap.mp hr
      rw [embeddedFields_def] at hr
      split at hr
      · obtain ⟨field, _, rfl⟩ := List.mem_map.mp hr
        split
        · rfl
        · exact here visit hv
      · cases hr

/-- From an addressable value on, all that promotion visits is addressable. -/
theorem Visits.addressable {visit : Reached} (h : p.Visits id true n visit) :
    visit.addressable = true := by
  obtain ⟨visits, hvisits, hv⟩ := h
  refine visitsWithin_addressable ?_ (List.mem_of_getElem? hvisits) visit hv
  simp

end LeastContext.Program

import LeastContext.Proofs.EmbedWalks
import LeastContext.Proofs.Satisfaction
import Mathlib.Data.List.Forall2
import Mathlib.Data.List.Nodup
import Mathlib.Data.List.Perm.Subperm

namespace LeastContext

/-- What is seen of an unnamed type before its parts are compared. -/
inductive TypeForm.Head where
  | basic (name : String)
  | pointer
  | slice
  | array (length : UInt64)
  | map
  | signature (params results : Nat) (variadic : Bool)
  | struct (fields : List (String × Bool))
  | interface
  deriving DecidableEq

def TypeForm.head? : TypeForm → Option TypeForm.Head
  | .basic name => some (.basic name)
  | .named _ => none
  | .pointer _ => some .pointer
  | .slice _ => some .slice
  | .array length _ => some (.array length)
  | .map _ _ => some .map
  | .signature sig => some (.signature sig.params.length sig.results.length sig.variadic)
  | .struct fields => some (.struct (fields.map fun field => (field.name, field.embedded)))
  | .interface _ => some .interface

section Matching

variable {related : TypeId → TypeId → Prop} {methods others : List Method}

/-- Every method has one of its key, with a related signature, among as many others. -/
structure Method.Match (related : TypeId → TypeId → Prop) (methods others : List Method) :
    Prop where
  length_eq : methods.length = others.length
  found : ∀ method ∈ methods, ∃ other ∈ others,
    other.key = method.key ∧ related method.signature other.signature

/-- A key that is matched one way is matched the other way: as many distinct keys on the left are
all keys on the right. -/
theorem Method.Match.symm (keys : (methods.map Method.key).Nodup)
    (otherKeys : (others.map Method.key).Nodup) (h : Method.Match related methods others) :
    Method.Match (fun a b => related b a) others methods := by
  have hsub : methods.map Method.key ⊆ others.map Method.key := by
    intro key hkey
    obtain ⟨method, hm, rfl⟩ := List.mem_map.mp hkey
    obtain ⟨other, ho, he, _⟩ := h.found method hm
    exact List.mem_map.mpr ⟨other, ho, he⟩
  have hperm : (methods.map Method.key).Perm (others.map Method.key) := by
    apply (List.subperm_of_subset keys hsub).perm_of_length_le
    rw [List.length_map, List.length_map, h.length_eq]
  refine ⟨h.length_eq.symm, ?_⟩
  intro other ho
  obtain ⟨method, hm, hkey⟩ := List.mem_map.mp (hperm.mem_iff.mpr (List.mem_map_of_mem ho))
  obtain ⟨found, hf, he, hrelated⟩ := h.found method hm
  -- the method found on the right has the key of the one we started from, so it is that one
  obtain rfl : found = other :=
    List.inj_on_of_nodup_map otherKeys hf ho (he.trans hkey)
  exact ⟨method, hm, hkey, hrelated⟩

theorem Method.Match.comp {more : List Method} {also : TypeId → TypeId → Prop}
    (h : Method.Match related methods others) (h' : Method.Match also others more) :
    Method.Match (fun a c => ∃ b, related a b ∧ also b c) methods more := by
  refine ⟨h.length_eq.trans h'.length_eq, ?_⟩
  intro method hm
  obtain ⟨other, ho, hkey, hrelated⟩ := h.found method hm
  obtain ⟨last, hl, hkey', halso⟩ := h'.found other ho
  exact ⟨last, hl, hkey'.trans hkey, other.signature, hrelated, halso⟩

theorem forall₂_join {α : Type} {r s : α → α → Prop} {xs ys zs : List α}
    (h : List.Forall₂ r xs ys) (h' : List.Forall₂ s ys zs) :
    List.Forall₂ (fun a c => ∃ b, r a b ∧ s b c) xs zs := by
  induction h generalizing zs with
  | nil =>
    cases h'
    exact .nil
  | cons hxy _ ih =>
    cases h' with
    | cons hyz hrest => exact .cons ⟨_, hxy, hyz⟩ (ih hrest)

end Matching

namespace Program

variable {p : Program} {a b c : TypeId} {related also : TypeId → TypeId → Prop}

/-- One step of a comparison: two unnamed types have one head and their parts are related, or two
interface literals have matching method sets. -/
inductive Alike (p : Program) (related : TypeId → TypeId → Prop) (a b : TypeId) : Prop where
  | parts {head : TypeForm.Head} : (p.form a).head? = some head → (p.form b).head? = some head →
      head ≠ .interface → List.Forall₂ related (p.form a).parts (p.form b).parts →
        Alike p related a b
  | methods : (p.form a).head? = some .interface → (p.form b).head? = some .interface →
      Method.Match related (p.interfaceMethods a) (p.interfaceMethods b) → Alike p related a b

theorem Alike.mono (h : p.Alike related a b) (weaker : ∀ x y, related x y → also x y) :
    p.Alike also a b := by
  cases h with
  | parts ha hb hne hparts => exact .parts ha hb hne (hparts.imp weaker)
  | methods ha hb hmatch =>
    refine .methods ha hb ⟨hmatch.length_eq, ?_⟩
    intro method hm
    obtain ⟨other, ho, hkey, hrelated⟩ := hmatch.found method hm
    exact ⟨other, ho, hkey, weaker _ _ hrelated⟩

theorem Alike.same_head (h : p.Alike related a b) :
    ∃ head, (p.form a).head? = some head ∧ (p.form b).head? = some head := by
  cases h with
  | parts ha hb => exact ⟨_, ha, hb⟩
  | methods ha hb => exact ⟨_, ha, hb⟩

theorem Alike.symm (h : p.Alike related a b) : p.Alike (fun x y => related y x) b a := by
  cases h with
  | parts ha hb hne hparts => exact .parts hb ha hne hparts.flip
  | methods ha hb hmatch =>
    exact .methods hb ha (hmatch.symm (interfaceMethods_keys a) (interfaceMethods_keys b))

theorem Alike.comp (h : p.Alike related a b) (h' : p.Alike also b c) :
    p.Alike (fun x z => ∃ y, related x y ∧ also y z) a c := by
  cases h with
  | parts ha hb hne hparts =>
    cases h' with
    | parts hb' hc _ hparts' =>
      obtain rfl := Option.some.inj (hb.symm.trans hb')
      exact .parts ha hc hne (forall₂_join hparts hparts')
    | methods hb' => exact absurd (Option.some.inj (hb.symm.trans hb')) hne
  | methods ha hb hmatch =>
    cases h' with
    | parts hb' _ hne => exact absurd (Option.some.inj (hb'.symm.trans hb)) hne
    | methods _ hc hmatch' => exact .methods ha hc (hmatch.comp hmatch')

/-- An unnamed type other than an interface is compared by its head and its parts. -/
theorem alike_iff_parts {left right : TypeForm} (ha : p.form a = left) (hb : p.form b = right)
    {head : TypeForm.Head} (hhead : left.head? = some head) (plain : head ≠ .interface) :
    p.Alike related a b ↔
      right.head? = some head ∧ List.Forall₂ related left.parts right.parts := by
  subst ha hb
  constructor
  · intro h
    cases h with
    | parts ha hb _ hparts =>
      obtain rfl := Option.some.inj (ha.symm.trans hhead)
      exact ⟨hb, hparts⟩
    | methods ha => exact absurd (Option.some.inj (hhead.symm.trans ha)) plain
  · intro h
    exact .parts hhead h.1 plain h.2

theorem alike_iff_methods (interface : (p.form a).head? = some .interface) :
    p.Alike related a b ↔ (p.form b).head? = some .interface ∧
      Method.Match related (p.interfaceMethods a) (p.interfaceMethods b) := by
  constructor
  · intro h
    cases h with
    | parts ha _ hne => exact absurd (Option.some.inj (ha.symm.trans interface)) hne
    | methods _ hb hmatch => exact ⟨hb, hmatch⟩
  · intro h
    exact .methods interface h.1 h.2

/-- A step holds if it asks a question that is answered by a relation. -/
def Holds (related : TypeId → TypeId → Prop) (step : Option Question) : Prop :=
  ∃ q, step = some q ∧ related q.1 q.2

theorem not_holds_none : ¬ Holds related none := by
  intro h
  obtain ⟨q, hq, _⟩ := h
  cases hq

theorem holds_some {q : Question} : Holds related (some q) ↔ related q.1 q.2 := by
  simp [Holds]

theorem unless_different_holds (same : Prop) [Decidable same] (steps : List (Option Question)) :
    (∀ step ∈ if same then steps else [none], Holds related step) ↔
      same ∧ ∀ step ∈ steps, Holds related step := by
  split
  · rename_i h
    simp [h]
  · rename_i h
    simp [h, not_holds_none]

theorem parts_hold_iff {xs ys : List TypeId} (hlen : xs.length = ys.length) :
    (∀ step ∈ (xs.zip ys).map some, Holds related step) ↔ List.Forall₂ related xs ys := by
  rw [List.forall₂_iff_zip, List.forall_mem_map]
  constructor
  · intro h
    exact ⟨hlen, fun {x y} hz => holds_some.mp (h (x, y) hz)⟩
  · intro h pair hz
    exact holds_some.mpr (h.2 hz)

theorem fields_hold_iff {fields others : List StructField} (hlen : fields.length = others.length)
    {step : StructField × StructField → Option Question}
    (hstep : ∀ f g, step (f, g) =
      if f.name = g.name ∧ f.embedded = g.embedded then some (f.type, g.type) else none) :
    (∀ s ∈ (fields.zip others).map step, Holds related s) ↔
      (fields.map fun f => (f.name, f.embedded)) = (others.map fun g => (g.name, g.embedded)) ∧
        List.Forall₂ related (fields.map (·.type)) (others.map (·.type)) := by
  have hheads : (fields.map fun f => (f.name, f.embedded)) =
      (others.map fun g => (g.name, g.embedded)) ↔
        ∀ f g, (f, g) ∈ fields.zip others → f.name = g.name ∧ f.embedded = g.embedded := by
    rw [← List.forall₂_eq_eq_eq, List.forall₂_map_left_iff, List.forall₂_map_right_iff,
      List.forall₂_iff_zip]
    simp [hlen]
  have hparts : List.Forall₂ related (fields.map (·.type)) (others.map (·.type)) ↔
      ∀ f g, (f, g) ∈ fields.zip others → related f.type g.type := by
    rw [List.forall₂_map_left_iff, List.forall₂_map_right_iff, List.forall₂_iff_zip]
    simp [hlen]
  have heach : ∀ f g, Holds related (step (f, g)) ↔
      (f.name = g.name ∧ f.embedded = g.embedded) ∧ related f.type g.type := by
    intro f g
    rw [hstep]
    split
    · rename_i hsame
      simp [holds_some, hsame]
    · rename_i hdiffer
      simp [not_holds_none, hdiffer]
  rw [hheads, hparts, List.forall_mem_map, Prod.forall]
  simp only [heach]
  exact ⟨fun h => ⟨fun f g hz => (h f g hz).1, fun f g hz => (h f g hz).2⟩,
    fun h f g hz => ⟨h.1 f g hz, h.2 f g hz⟩⟩

/-- Of methods with different keys the one of a wanted key is asked about. -/
theorem methods_hold_iff {methods others : List Method} {ask : Method → Method → Question}
    (keys : (others.map Method.key).Nodup) :
    (∀ step ∈ methods.map fun m => (others.find? (·.key = m.key)).map (ask m),
      Holds related step) ↔
      ∀ method ∈ methods, ∃ other ∈ others,
        other.key = method.key ∧ related (ask method other).1 (ask method other).2 := by
  rw [List.forall_mem_map]
  refine forall₂_congr fun method _ => ?_
  constructor
  · intro h
    obtain ⟨q, hq, hrelated⟩ := h
    obtain ⟨other, hfind, rfl⟩ := Option.map_eq_some_iff.mp hq
    exact ⟨other, List.mem_of_find?_eq_some hfind, by simpa using List.find?_some hfind, hrelated⟩
  · intro h
    obtain ⟨other, ho, hkey, hrelated⟩ := h
    have hfind : others.find? (·.key = method.key) = some other := by
      rw [← List.head?_filter, ← hkey, Method.filter_key keys ho]
      rfl
    rw [hfind]
    exact holds_some.mpr hrelated

/-- A comparison succeeds if all its steps do, that is for one type or for types that are alike. -/
theorem steps_hold_iff :
    (∀ step ∈ p.steps (a, b), Holds related step) ↔ a = b ∨ p.Alike related a b := by
  by_cases he : a = b
  · simp [steps, he]
  · -- a difference that is seen without asking
    have differ : (∀ head, (p.form a).head? = some head → (p.form b).head? ≠ some head) →
        ((∀ step ∈ [none], Holds related step) ↔ p.Alike related a b) := by
      intro hno
      constructor
      · intro h
        exact absurd (h none List.mem_cons_self) not_holds_none
      · intro h
        obtain ⟨head, ha, hb⟩ := h.same_head
        exact absurd hb (hno head ha)
    simp only [steps, he, if_false, false_or]
    split
    case h_1 hl => exact differ (by simp [hl, TypeForm.head?])
    case h_2 hr _ => exact differ (by simp [hr, TypeForm.head?])
    case h_3 hl hr =>
      rw [alike_iff_parts hl hr rfl (by simp), unless_different_holds]
      simp [TypeForm.head?, TypeForm.parts, eq_comm]
    case h_4 hl hr =>
      rw [alike_iff_parts hl hr rfl (by simp)]
      simp [TypeForm.head?, TypeForm.parts, holds_some]
    case h_5 hl hr =>
      rw [alike_iff_parts hl hr rfl (by simp)]
      simp [TypeForm.head?, TypeForm.parts, holds_some]
    case h_6 hl hr =>
      rw [alike_iff_parts hl hr rfl (by simp), unless_different_holds]
      simp [TypeForm.head?, TypeForm.parts, holds_some, eq_comm]
    case h_7 hl hr =>
      rw [alike_iff_parts hl hr rfl (by simp)]
      simp [TypeForm.head?, TypeForm.parts, holds_some]
    case h_8 s t hl hr =>
      rw [alike_iff_parts hl hr rfl (by simp), unless_different_holds]
      have hhead : (TypeForm.signature t).head? =
          some (.signature s.params.length s.results.length s.variadic) ↔
          s.variadic = t.variadic ∧ s.params.length = t.params.length ∧
            s.results.length = t.results.length := by
        simp only [TypeForm.head?, Option.some.injEq, TypeForm.Head.signature.injEq]
        constructor
        · intro h
          exact ⟨h.2.2.symm, h.1.symm, h.2.1.symm⟩
        · intro h
          exact ⟨h.2.1.symm, h.2.2.symm, h.1.symm⟩
      rw [hhead]
      refine and_congr_right fun hsame => parts_hold_iff ?_
      simp [hsame]
    case h_9 fs gs hl hr =>
      rw [alike_iff_parts hl hr rfl (by simp), unless_different_holds]
      simp only [TypeForm.head?, TypeForm.parts, Option.some.injEq, TypeForm.Head.struct.injEq]
      constructor
      · intro h
        obtain ⟨hlen, hsteps⟩ := h
        obtain ⟨hheads, hparts⟩ := (fields_hold_iff hlen fun f g => rfl).mp hsteps
        exact ⟨hheads.symm, hparts⟩
      · intro h
        have hlen : fs.length = gs.length := by simpa using (congrArg List.length h.1).symm
        exact ⟨hlen, (fields_hold_iff hlen fun f g => rfl).mpr ⟨h.1.symm, h.2⟩⟩
    case h_10 hl hr =>
      rw [alike_iff_methods (by rw [hl]; rfl), hr, unless_different_holds,
        methods_hold_iff (interfaceMethods_keys b)]
      exact ⟨fun h => ⟨rfl, h.1, h.2⟩, fun h => ⟨h.2.length_eq, h.2.found⟩⟩
    case h_11 =>
      apply differ
      intro head ha hb
      -- a common head would have been met by one of the cases before
      cases hl : p.form a <;> rw [hl] at ha <;> cases ha <;>
        cases hr : p.form b <;> simp [hr, TypeForm.head?] at hb <;> solve_by_elim

theorem allM_eq_true {α : Type} {f : α → Option Bool} {xs : List α} :
    xs.allM f = some true ↔ ∀ x ∈ xs, f x = some true := by
  induction xs with
  | nil => simp [List.allM]
  | cons x xs ih =>
    rw [List.allM, List.forall_mem_cons, ← ih]
    cases f x with
    | none => simp
    | some r => cases r <;> simp

/-- Steps are all answered with yes within a depth if each asks a question with that answer. -/
theorem steps_succeed_iff {depth : Nat} {steps : List (Option Question)} :
    steps.allM (p.answer depth) = some true ↔
      ∀ step ∈ steps, Holds (fun x y => p.identicalWithin depth x y = some true) step := by
  rw [allM_eq_true]
  refine forall₂_congr fun step _ => ?_
  cases step with
  | none => simp [answer, not_holds_none]
  | some q => rw [holds_some, answer]

theorem identicalWithin_true {depth : Nat} : p.identicalWithin (depth + 1) a b = some true ↔
    a = b ∨ p.Alike (fun x y => p.identicalWithin depth x y = some true) a b := by
  rw [← steps_hold_iff, ← steps_succeed_iff, ← identicalWithin_succ]

theorem identicalWithin_symm {depth : Nat} (h : p.identicalWithin depth a b = some true) :
    p.identicalWithin depth b a = some true := by
  induction depth generalizing a b with
  | zero => cases h
  | succ depth ih =>
    rw [identicalWithin_true] at h ⊢
    rcases h with rfl | h
    · exact .inl rfl
    · exact .inr (h.symm.mono fun x y hxy => ih hxy)

theorem identicalWithin_trans {depth : Nat} (h : p.identicalWithin depth a b = some true)
    (h' : p.identicalWithin depth b c = some true) : p.identicalWithin depth a c = some true := by
  induction depth generalizing a b c with
  | zero => cases h
  | succ depth ih =>
    rw [identicalWithin_true] at h h'
    rcases h with rfl | h
    · exact identicalWithin_true.mpr h'
    · rcases h' with rfl | h'
      · exact identicalWithin_true.mpr (.inr h)
      · refine identicalWithin_true.mpr (.inr ((h.comp h').mono ?_))
        intro x z hxz
        obtain ⟨y, hxy, hyz⟩ := hxz
        exact ih hxy hyz

theorem identical_eq_true : p.identical a b = true ↔ p.identical? a b = some true := by
  rw [identical_def, Option.getD_eq_iff]
  simp

theorem identical_symm (h : p.identical a b = true) : p.identical b a = true := by
  rw [identical_eq_true] at h ⊢
  exact identicalWithin_symm h

theorem identical_trans (h : p.identical a b = true) (h' : p.identical b c = true) :
    p.identical a c = true := by
  rw [identical_eq_true] at h h' ⊢
  exact identicalWithin_trans h h'

/-- Where both comparisons end, they end alike. -/
theorem identical?_comm {r s : Bool} (hab : p.identical? a b = some r)
    (hba : p.identical? b a = some s) : r = s := by
  rw [Bool.eq_iff_iff]
  constructor
  · intro hr
    subst hr
    exact Option.some.inj (hba.symm.trans (identicalWithin_symm hab))
  · intro hs
    subst hs
    exact Option.some.inj (hab.symm.trans (identicalWithin_symm hba))

theorem implements_trans (h : p.implements a b = true) (h' : p.implements b c = true) :
    p.implements a c = true := by
  obtain ⟨hb, hprovides⟩ := implements_iff.mp h
  obtain ⟨hc, hprovides'⟩ := implements_iff.mp h'
  refine implements_iff.mpr ⟨hc, ?_⟩
  intro wanted hwanted
  obtain ⟨other, ho, hkey', hsame'⟩ := hprovides' wanted hwanted
  rw [methodSet_of_isInterface hb] at ho
  obtain ⟨method, hm, hkey, hsame⟩ := hprovides other ho
  exact ⟨method, hm, hkey.trans hkey', identical_trans hsame hsame'⟩

/-- An interface with a head is a literal. -/
theorem head_of_isInterface {head : TypeForm.Head} (hinterface : p.isInterface a = true)
    (hhead : (p.form a).head? = some head) : head = .interface := by
  obtain ⟨body, hbody⟩ := isInterface_iff.mp hinterface
  obtain ⟨d, hd, hform⟩ := interface?_eq_some.mp hbody
  have plain : (p.form a).isNamed = false := by
    cases hf : p.form a with
    | named decl => simp [hf, TypeForm.head?] at hhead
    | _ => rfl
  rw [← hd.eq_of_plain plain, hform] at hhead
  exact (Option.some.inj hhead).symm

theorem implements_of_identical (ha : p.isInterface a = true) (hb : p.isInterface b = true)
    (h : p.identical a b = true) : p.implements a b = true := by
  rcases identicalWithin_true.mp (identicalWithin_symm (identical_eq_true.mp h)) with rfl | halike
  · simp [implements_def, ha]
  · cases halike with
    | parts hhead _ hne => exact absurd (head_of_isInterface hb hhead) hne
    | methods _ _ hmatch =>
      refine implements_iff.mpr ⟨hb, ?_⟩
      intro wanted hwanted
      obtain ⟨method, hm, hkey, hsame⟩ := hmatch.found wanted hwanted
      rw [← methodSet_of_isInterface ha] at hm
      have hdeeper := identicalWithin_deeper (q := (wanted.signature, method.signature)) hsame
        (Nat.le_succ _)
      exact ⟨method, hm, hkey, identical_symm (identical_eq_true.mpr hdeeper)⟩

/-- A value is found to satisfy an interface only by comparisons that end. -/
theorem implements_settles (h : p.implements a b = true) :
    ∃ depth, p.implementsWithin depth a b = some true := by
  obtain ⟨hb, hprovides⟩ := implements_iff.mp h
  refine ⟨p.types.size * p.types.size + 1, ?_⟩
  rw [implementsWithin_eq, steps_succeed_iff, implementsSteps, if_pos hb]
  split
  · simp
  · rw [satisfactionSteps, if_pos hb]
    refine (methods_hold_iff (methodSet_keys a)).mpr ?_
    intro wanted hwanted
    obtain ⟨method, hm, hkey, hsame⟩ := hprovides wanted hwanted
    exact ⟨method, hm, hkey, identical_eq_true.mp hsame⟩

/-- The laws of comparing types. An answer `none` is a comparison that does not end. -/
structure ComparisonLaws (p : Program) : Prop where
  identical_ends : ∀ a b, p.Settles a b ↔ ∃ r, p.identical? a b = some r
  identical_refl : ∀ a, p.identical? a a = some true
  identical_symm : ∀ a b, p.identical? a b = some true → p.identical? b a = some true
  identical_comm : ∀ a b, p.Settles a b → p.Settles b a → p.identical? a b = p.identical? b a
  identical_trans : ∀ a b c, p.identical? a b = some true → p.identical? b c = some true →
    p.identical? a c = some true
  implements_ends : ∀ a b,
    p.implements a b = true ↔ ∃ depth, p.implementsWithin depth a b = some true
  implements_of_identical : ∀ a b, p.isInterface a = true → p.isInterface b = true →
    p.identical? a b = some true → p.implements a b = true ∧ p.implements b a = true
  implements_refl : ∀ a, p.isInterface a = true → p.implements a a = true
  implements_trans : ∀ a b c, p.isInterface b = true → p.isInterface c = true →
    p.implements a b = true → p.implements b c = true → p.implements a c = true

theorem comparison_is_congruence (p : Program) (valid : p.defect? = none) : p.ComparisonLaws := by
  have wf := WellFormed.of_defect? valid
  refine ⟨?_, ?_, ?_, ?_, ?_, ?_, ?_, ?_, ?_⟩
  · intro a b
    exact settles_iff wf
  · intro a
    exact identical_eq_true.mp (identical_self a)
  · intro a b h
    exact identicalWithin_symm h
  · intro a b hab hba
    obtain ⟨r, hr⟩ := (settles_iff wf).mp hab
    obtain ⟨s, hs⟩ := (settles_iff wf).mp hba
    rw [hr, hs, identical?_comm hr hs]
  · intro a b c h h'
    exact identicalWithin_trans h h'
  · intro a b
    constructor
    · exact implements_settles
    · intro h
      obtain ⟨depth, hdepth⟩ := h
      exact implementsWithin_answer wf hdepth
  · intro a b ha hb h
    have hsame := identical_eq_true.mpr h
    exact ⟨implements_of_identical ha hb hsame,
      implements_of_identical hb ha (identical_symm hsame)⟩
  · intro a ha
    simp [implements_def, ha]
  · intro a b c _ _ h h'
    exact implements_trans h h'

/-- Two interface literals with one method set, written in another order and one of them through
the embedded interface `Base`, over two copies of a signature; and a struct type `T` that has the
methods. -/
def shuffledLiterals : Program where
  package := ⟨0⟩
  packages := #[⟨"app", "app"⟩]
  types := #[
    .signature ⟨[], [], false⟩,
    .signature ⟨[], [], false⟩,
    .interface ⟨[⟨"N", none, ⟨0⟩⟩], []⟩,
    .named ⟨"Base", some ⟨0⟩, ⟨2⟩, []⟩,
    .interface ⟨[⟨"M", none, ⟨0⟩⟩], [⟨3⟩]⟩,
    .interface ⟨[⟨"N", none, ⟨1⟩⟩, ⟨"M", none, ⟨1⟩⟩], []⟩,
    .struct [],
    .named ⟨"T", some ⟨0⟩, ⟨6⟩, [⟨⟨0⟩, false⟩, ⟨⟨1⟩, false⟩]⟩]
  objects := #[
    ⟨"M", .method ⟨7⟩, some ⟨0⟩, some ⟨1⟩, none⟩,
    ⟨"N", .method ⟨7⟩, some ⟨0⟩, some ⟨0⟩, none⟩]
  files := []

theorem shuffledLiterals_valid : shuffledLiterals.defect? = none := by
  decide

/-- The literals are identical though neither is the other, so they satisfy each other, and the
struct type satisfies either because it satisfies the one. -/
theorem shuffledLiterals_compared :
    shuffledLiterals.defect? = none ∧ shuffledLiterals.identical? ⟨4⟩ ⟨5⟩ = some true ∧
      shuffledLiterals.identical? ⟨5⟩ ⟨4⟩ = some true ∧
      shuffledLiterals.implements ⟨4⟩ ⟨5⟩ = true ∧ shuffledLiterals.implements ⟨7⟩ ⟨4⟩ = true ∧
      shuffledLiterals.implements ⟨7⟩ ⟨5⟩ = true := by
  have laws := comparison_is_congruence shuffledLiterals shuffledLiterals_valid
  have hsame : shuffledLiterals.identical? ⟨4⟩ ⟨5⟩ = some true := by decide
  have hstruct : shuffledLiterals.implements ⟨7⟩ ⟨4⟩ = true := by decide
  have hliterals := laws.implements_of_identical ⟨4⟩ ⟨5⟩ (by decide) (by decide) hsame
  exact ⟨shuffledLiterals_valid, hsame, laws.identical_symm _ _ hsame, hliterals.1, hstruct,
    laws.implements_trans _ _ _ (by decide) (by decide) hstruct hliterals.1⟩

end Program

end LeastContext

import LeastContext.Ledger
import LeastContext.Proofs.UsageSets
import Mathlib.Logic.Relation

namespace LeastContext

/-- A change of a ledger. -/
inductive Operation where
  | track (object : ObjectId)
  | untrack (object : ObjectId)
  | share (a b : VarId)
  | insert (v : VarId) (use : Use)

/-- The variables that an operation is given. -/
def Operation.arguments : Operation → List VarId
  | .share a b => [a, b]
  | .insert v _ => [v]
  | .track _ | .untrack _ => []

/-- The operations performed so far, the latest one first. -/
abbrev History := List Operation

namespace History

/-- Whether an object has been tracked and not been untracked since. -/
def tracks : History → ObjectId → Bool
  | [], _ => false
  | .track other :: past, object => other = object || tracks past object
  | .untrack other :: past, object => other ≠ object && tracks past object
  | .share _ _ :: past, object | .insert _ _ :: past, object => tracks past object

/-- The objects that variables were issued for, the oldest first. Tracking an object that is
tracked already issues none. -/
def issued : History → List ObjectId
  | [] => []
  | .track object :: past =>
    if tracks past object then issued past else issued past ++ [object]
  | .untrack _ :: past | .share _ _ :: past | .insert _ _ :: past => issued past

def Issued (history : History) (v : VarId) : Prop :=
  v.index < (issued history).length

/-- Every variable given to an operation had been issued before. -/
def Valid : History → Prop
  | [] => True
  | op :: past => (∀ v ∈ op.arguments, Issued past v) ∧ Valid past

/-- The newest of the variables issued for an object. -/
def Newest (history : History) (object : ObjectId) (v : VarId) : Prop :=
  (issued history)[v.index]? = some object ∧
    ∀ w : VarId, v.index < w.index → (issued history)[w.index]? ≠ some object

/-- A variable that is the newest of its object, the object being tracked. -/
def Current (history : History) (v : VarId) : Prop :=
  ∃ object, Newest history object v ∧ tracks history object = true

/-- The equivalence closure of the share operations. -/
def Connected (history : History) : VarId → VarId → Prop :=
  Relation.EqvGen fun a b => .share a b ∈ history

def classes (history : History) : Setoid VarId :=
  Relation.EqvGen.setoid fun a b => .share a b ∈ history

theorem Newest.unique {history : History} {object : ObjectId} {v w : VarId}
    (hv : Newest history object v) (hw : Newest history object w) : v = w := by
  rcases Nat.lt_trichotomy v.index w.index with hlt | heq | hgt
  · exact absurd hw.1 (hv.2 w hlt)
  · exact congrArg VarId.mk heq
  · exact absurd hv.1 (hw.2 v hgt)

theorem Newest.object_eq {history : History} {object other : ObjectId} {v : VarId}
    (hv : Newest history object v) (hw : Newest history other v) : object = other :=
  Option.some.inj (hv.1.symm.trans hw.1)

theorem Newest.issued {history : History} {object : ObjectId} {v : VarId}
    (h : Newest history object v) : Issued history v := by
  obtain ⟨hlt, _⟩ := List.getElem?_eq_some_iff.mp h.1
  exact hlt

theorem issued_length_le (op : Operation) (past : History) :
    (issued past).length ≤ (issued (op :: past)).length := by
  cases op with
  | track object =>
    rw [issued]
    split <;> simp
  | untrack _ | share _ _ | insert _ _ => exact Nat.le_refl _

theorem Valid.argument_issued {history : History} (valid : Valid history) {op : Operation}
    (hop : op ∈ history) {v : VarId} (hv : v ∈ op.arguments) : Issued history v := by
  induction history with
  | nil => cases hop
  | cons latest past ih =>
    rcases List.mem_cons.mp hop with rfl | hop
    · exact Nat.lt_of_lt_of_le (valid.1 v hv) (issued_length_le _ past)
    · exact Nat.lt_of_lt_of_le (ih valid.2 hop) (issued_length_le _ past)

theorem Valid.insert_issued {history : History} (valid : Valid history) {v : VarId} {use : Use}
    (h : .insert v use ∈ history) : Issued history v :=
  valid.argument_issued h (by simp [Operation.arguments])

theorem Valid.share_issued {history : History} (valid : Valid history) {a b : VarId}
    (h : .share a b ∈ history) : Issued history a ∧ Issued history b :=
  ⟨valid.argument_issued h (by simp [Operation.arguments]),
    valid.argument_issued h (by simp [Operation.arguments])⟩

/-- Only sharing connects variables. -/
theorem connected_cons {op : Operation} {past : History} (hop : ∀ a b, op ≠ .share a b)
    {v w : VarId} : Connected (op :: past) v w ↔ Connected past v w := by
  have same : (fun a b => Operation.share a b ∈ op :: past) = fun a b => .share a b ∈ past := by
    funext a b
    simp [Ne.symm (hop a b)]
  rw [Connected, same]
  rfl

theorem Connected.older {op : Operation} {past : History} {v w : VarId}
    (h : Connected past v w) : Connected (op :: past) v w :=
  Relation.EqvGen.mono (fun _ _ hm => List.mem_cons_of_mem _ hm) v w h

/-- A variable that was not issued is connected to itself only. -/
theorem Connected.eq_or_issued {history : History} (valid : Valid history) {v w : VarId}
    (h : Connected history v w) : v = w ∨ Issued history v ∧ Issued history w := by
  induction h with
  | rel _ _ hm => exact .inr (valid.share_issued hm)
  | refl _ => exact .inl rfl
  | symm _ _ _ ih => exact ih.imp Eq.symm And.symm
  | trans _ _ _ _ _ first second =>
    rcases first with rfl | first
    · exact second
    · rcases second with rfl | second
      · exact .inr first
      · exact .inr ⟨first.1, second.2⟩

theorem Connected.value {α : Type} {history : History} {v w : VarId} (h : Connected history v w)
    (f : VarId → α) (agrees : ∀ a b, .share a b ∈ history → f a = f b) : f v = f w := by
  induction h with
  | rel a b hm => exact agrees a b hm
  | refl _ => rfl
  | symm _ _ _ ih => exact ih.symm
  | trans _ _ _ _ _ first second => exact first.trans second

theorem mem_issued {history : History} {object : ObjectId}
    (h : tracks history object = true) : object ∈ History.issued history := by
  induction history with
  | nil => simp [tracks] at h
  | cons op past ih =>
    cases op with
    | track other =>
      rw [tracks, Bool.or_eq_true, decide_eq_true_eq] at h
      rw [History.issued]
      split
      · rename_i ho
        rcases h with rfl | h
        · exact ih ho
        · exact ih h
      · rcases h with rfl | h
        · simp
        · exact List.mem_append_left _ (ih h)
    | untrack other =>
      rw [tracks, Bool.and_eq_true] at h
      exact ih h.2
    | share _ _ | insert _ _ => exact ih h

/-- An object that is tracked has a newest variable: the last one issued for it. -/
theorem exists_newest {history : History} {object : ObjectId}
    (h : tracks history object = true) : ∃ v, Newest history object v := by
  obtain ⟨after, before, he, hn⟩ :=
    List.eq_append_cons_of_mem (List.mem_reverse.mpr (mem_issued h))
  have hs : History.issued history = before.reverse ++ object :: after.reverse := by
    rw [← List.reverse_reverse (History.issued history), he]
    simp
  refine ⟨⟨before.length⟩, ?_, ?_⟩
  · simp [hs]
  · intro w hw hwo
    rw [hs, List.getElem?_append_right (by simpa using Nat.le_of_lt hw)] at hwo
    obtain ⟨k, hk⟩ : ∃ k, w.index - before.reverse.length = k + 1 :=
      ⟨w.index - before.length - 1, by simp only [List.length_reverse] at hw ⊢; omega⟩
    rw [hk, List.getElem?_cons_succ] at hwo
    exact hn (List.mem_reverse.mp (List.mem_of_getElem? hwo))

theorem connected_append {ops past : History} (hops : ∀ op ∈ ops, ∀ a b, op ≠ .share a b)
    {v w : VarId} : Connected (ops ++ past) v w ↔ Connected past v w := by
  induction ops with
  | nil => rfl
  | cons op ops ih =>
    rw [List.cons_append, connected_cons (hops op List.mem_cons_self)]
    exact ih fun other ho => hops other (List.mem_cons_of_mem _ ho)

theorem issued_append {ops past : History} (hops : ∀ op ∈ ops, ∀ object, op ≠ .track object) :
    History.issued (ops ++ past) = History.issued past := by
  induction ops with
  | nil => rfl
  | cons op ops ih =>
    have hrest := ih fun other ho => hops other (List.mem_cons_of_mem _ ho)
    cases op with
    | track object => exact absurd rfl (hops _ List.mem_cons_self object)
    | untrack _ | share _ _ | insert _ _ => exact hrest

/-- Without tracking anew, what is tracked is what was and has not been dropped. -/
theorem tracks_append {ops past : History} (hops : ∀ op ∈ ops, ∀ object, op ≠ .track object)
    {object : ObjectId} : tracks (ops ++ past) object = true ↔
      tracks past object = true ∧ .untrack object ∉ ops := by
  induction ops with
  | nil => simp
  | cons op ops ih =>
    have hrest := ih fun other ho => hops other (List.mem_cons_of_mem _ ho)
    cases op with
    | track other => exact absurd rfl (hops _ List.mem_cons_self other)
    | untrack other =>
      simp only [List.cons_append, tracks, Bool.and_eq_true, decide_eq_true_eq, hrest,
        List.mem_cons, Operation.untrack.injEq, not_or, @eq_comm _ object]
      tauto
    | share _ _ | insert _ _ => simpa [tracks] using hrest

/-- A new variable takes the place of the newest from those of its object only. -/
theorem newest_track {past : History} {object other : ObjectId} {v : VarId}
    (ht : tracks past object = false) (hv : Issued past v) :
    Newest (.track object :: past) other v ↔ Newest past other v ∧ other ≠ object := by
  have hi : History.issued (.track object :: past) = History.issued past ++ [object] := by
    simp [History.issued, ht]
  have old : ∀ w : VarId, Issued past w →
      (History.issued (.track object :: past))[w.index]? = (History.issued past)[w.index]? := by
    intro w hw
    rw [hi, List.getElem?_append_left hw]
  constructor
  · intro h
    obtain ⟨hv', later⟩ := h
    refine ⟨⟨(old v hv).symm.trans hv', ?_⟩, ?_⟩
    · intro w hlt hw
      have hin : Issued past w := (List.getElem?_eq_some_iff.mp hw).1
      exact later w hlt ((old w hin).trans hw)
    · rintro rfl
      exact later ⟨(History.issued past).length⟩ hv (by simp [hi])
  · intro h
    obtain ⟨⟨hv', later⟩, hne⟩ := h
    refine ⟨(old v hv).trans hv', ?_⟩
    intro w hlt hw
    by_cases hin : Issued past w
    · exact later w hlt ((old w hin).symm.trans hw)
    · rw [hi, List.getElem?_append_right (Nat.le_of_not_lt hin)] at hw
      have := List.mem_of_getElem? hw
      exact hne (List.mem_singleton.mp this)

theorem newest_fresh {past : History} {object : ObjectId} (ht : tracks past object = false) :
    Newest (.track object :: past) object ⟨(History.issued past).length⟩ := by
  refine ⟨by simp [History.issued, ht], ?_⟩
  intro w hlt hw
  have hin := (List.getElem?_eq_some_iff.mp hw).1
  have hlt' : (History.issued past).length < w.index := hlt
  simp only [History.issued, ht, Bool.false_eq_true, if_false, List.length_append,
    List.length_singleton] at hin
  omega

end History

end LeastContext

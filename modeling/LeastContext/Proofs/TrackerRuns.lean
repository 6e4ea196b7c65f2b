import LeastContext.Proofs.Lists
import LeastContext.Proofs.MarkedUses
import LeastContext.Tracker

namespace LeastContext

/-- The handle of a variable, its place cut down to a word. -/
def VarId.handle (v : VarId) : VarHandle :=
  ⟨v.index.toUInt32⟩

/-- The record that a variable starts out with. -/
def VarId.recordId (v : VarId) : RecordId :=
  ⟨v.index.toUInt32⟩

theorem Dictionary.get?_eq_none_iff {κ ν : Type} [DecidableEq κ] {dictionary : Dictionary κ ν}
    {key : κ} : dictionary.get? key = none ↔ key ∉ dictionary.entries.map Prod.fst := by
  simp only [get?, List.lookup_eq_none_iff, bne_iff_ne, List.mem_map, not_exists, not_and]
  exact ⟨fun h entry hentry he => h entry hentry he.symm,
    fun h entry hentry he => h entry hentry he.symm⟩

theorem Dictionary.size_eq_ncard {κ ν : Type} [DecidableEq κ] (dictionary : Dictionary κ ν) :
    dictionary.size = {key | dictionary.get? key ≠ none}.ncard := by
  have keys : {key | dictionary.get? key ≠ none} = (dictionary.entries.map Prod.fst).toFinset := by
    ext key
    simp [get?_eq_none_iff]
  rw [keys, Set.ncard_coe_finset, List.toFinset_card_of_nodup dictionary.distinct, size,
    List.length_map]

theorem Ledger.lookup_push (ledger : Ledger) (entry : Variable) (object : ObjectId) :
    (Ledger.mk (ledger.entries.push entry)).lookup object =
      (ledger.lookup object).or
        (if entry.active && entry.object = object then some ⟨ledger.entries.size⟩ else none) := by
  unfold Ledger.lookup
  rw [Array.findIdx?_push]
  cases ledger.entries.findIdx? fun v => v.active && v.object = object with
  | some i => rfl
  | none => simp [apply_ite (Option.map VarId.mk)]

/-- An array holds the values of a function at the first so many variables. -/
structure Tabulates {α : Type} (xs : Array α) (size : Nat) (value : VarId → α) : Prop where
  size_eq : xs.size = size
  place : ∀ v, v.index < size → xs[v.index]? = some (value v)

namespace Tabulates

variable {α : Type} {xs : Array α} {size : Nat} {value value' : VarId → α}

theorem congr (h : Tabulates xs size value) (same : ∀ v, v.index < size → value' v = value v) :
    Tabulates xs size value' := by
  refine ⟨h.size_eq, ?_⟩
  intro v hv
  rw [h.place v hv, same v hv]

theorem push (h : Tabulates xs size value) (x : α) :
    Tabulates (xs.push x) (size + 1) fun v => if v.index = size then x else value v := by
  refine ⟨by rw [Array.size_push, h.size_eq], ?_⟩
  intro v hv
  rw [Array.getElem?_push, h.size_eq]
  split
  · rfl
  · exact h.place v (by omega)

theorem set (h : Tabulates xs size value) (r : VarId) (x : α) :
    Tabulates (xs.setIfInBounds r.index x) size fun v => if v = r then x else value v := by
  refine ⟨by rw [Array.size_setIfInBounds, h.size_eq], ?_⟩
  intro v hv
  rw [Array.getElem?_setIfInBounds, h.size_eq]
  by_cases he : v = r
  · subst he
    simp [hv]
  · have hne : r.index ≠ v.index := fun hi => he (congrArg VarId.mk hi.symm)
    rw [if_neg hne, if_neg he, h.place v hv]

end Tabulates

namespace Tracker

open History Ledger

/-- The variable that a tracker keeps for one of a ledger. -/
def entryFor (ledger : Ledger) (v : VarId) : TrackedVariable :=
  ⟨(ledger.variableAt v).object, v.recordId, (ledger.variableAt v).active⟩

/-- A tracker holds what a ledger holds: its vectors are those of the entries of the ledger, and its
dictionary says what the ledger finds among its active entries. -/
structure Represents (tracker : Tracker) (ledger : Ledger) : Prop where
  fits : ledger.entries.size ≤ UInt32.size
  entries : Tabulates tracker.entries ledger.entries.size (entryFor ledger)
  records : Tabulates tracker.records ledger.entries.size fun v => (ledger.variableAt v).usage
  parents : Tabulates tracker.parents ledger.entries.size fun v => (ledger.parent v).recordId
  lookup : ∀ object, tracker.byObject.get? object = (ledger.lookup object).map VarId.handle

namespace Represents

variable {tracker : Tracker} {ledger : Ledger} {v w : VarId}

theorem new : Represents .new .empty where
  fits := Nat.zero_le _
  entries := ⟨rfl, fun _ hv => absurd hv (Nat.not_lt_zero _)⟩
  records := ⟨rfl, fun _ hv => absurd hv (Nat.not_lt_zero _)⟩
  parents := ⟨rfl, fun _ hv => absurd hv (Nat.not_lt_zero _)⟩
  lookup := fun object => by simp [Tracker.new, Ledger.empty, Ledger.lookup]

section Places

variable (h : Represents tracker ledger)
include h

/-- The word for a place is the place, as long as there are enough words. -/
theorem toNat_place (hv : ledger.Has v) : v.index.toUInt32.toNat = v.index :=
  UInt32.toNat_ofNat_of_lt' (Nat.lt_of_lt_of_le hv h.fits)

theorem handle_inj (hv : ledger.Has v) (hw : ledger.Has w) (he : v.handle = w.handle) :
    v = w := by
  have hplaces := congrArg (·.value.toNat) he
  simp only [VarId.handle, h.toNat_place hv, h.toNat_place hw] at hplaces
  exact congrArg VarId.mk hplaces

theorem recordId_inj (hv : ledger.Has v) (hw : ledger.Has w) :
    v.recordId = w.recordId ↔ v = w := by
  refine ⟨fun he => h.handle_inj hv hw ?_, congrArg VarId.recordId⟩
  rw [VarId.handle, VarId.handle, RecordId.mk.inj he]

theorem tracked?_eq (hv : ledger.Has v) : tracker.tracked? v.handle = some (entryFor ledger v) := by
  rw [tracked?, VarId.handle, h.toNat_place hv, h.entries.place v hv]

theorem parent_eq (hv : ledger.Has v) :
    tracker.parents[v.recordId.value.toNat]? = some (ledger.parent v).recordId := by
  rw [VarId.recordId, h.toNat_place hv, h.parents.place v hv]

theorem usage_eq (hv : ledger.Has v) :
    tracker.records[v.recordId.value.toNat]? = some (ledger.variableAt v).usage := by
  rw [VarId.recordId, h.toNat_place hv, h.records.place v hv]

end Places

section Records

variable (h : Represents tracker ledger) (forest : Forest ledger)
include h forest

/-- The walk along the pointers is the one in the ledger. -/
theorem findWithin_eq {vs : List VarId} {r : VarId} (hchain : Chain ledger.pointsAt v vs r)
    (hv : ledger.Has v) (steps : Nat) (hs : vs.length < steps) :
    tracker.findWithin steps v.recordId = some r.recordId := by
  obtain ⟨steps, rfl⟩ := Nat.exists_eq_add_of_le' (Nat.lt_of_le_of_lt (Nat.zero_le _) hs)
  -- along the chain, since each of its links takes one step off the bound
  induction hchain generalizing steps with
  | @stop v last =>
    have self := (pointsAt_eq_none hv).mp last
    simp [findWithin, h.parent_eq hv, self]
  | @link v _ _ vs step _ ih =>
    obtain ⟨_, rfl, hne⟩ := pointsAt_eq_some step
    have hparent := forest.closed v hv
    have hother : (ledger.parent v).recordId ≠ v.recordId :=
      fun he => hne ((h.recordId_inj hparent hv).mp he)
    obtain ⟨steps, rfl⟩ := Nat.exists_eq_add_of_le' (show 1 ≤ steps by
      simp only [List.length_cons] at hs
      omega)
    have hrest := ih hparent steps (by simpa using hs)
    rw [findWithin, h.parent_eq hv]
    simpa [hother] using hrest

theorem recordId?_eq (hv : ledger.Has v) :
    tracker.recordId? v.handle = some (ledger.root v).recordId := by
  obtain ⟨vs, hchain⟩ := forest.chain hv
  have hlength := walk_length_le hchain
  have hfind := h.findWithin_eq forest hchain hv (tracker.parents.size + 1)
    (by rw [h.parents.size_eq]; omega)
  simpa [recordId?, h.tracked?_eq hv, find, entryFor] using hfind

theorem record?_eq (hv : ledger.Has v) : tracker.record? v.handle = some (ledger.usage v) := by
  simp [record?, h.recordId?_eq forest hv, h.usage_eq (forest.root_here hv), Ledger.usage]

end Records

theorem track_fresh (h : Represents tracker ledger) {object : ObjectId}
    (hl : ledger.lookup object = none) (fits : ledger.entries.size < UInt32.size) :
    Represents (tracker.track object).2 (ledger.track object) := by
  rw [Tracker.track, h.lookup, hl, Option.map_none, track_of_lookup_none hl, h.records.size_eq, h.entries.size_eq]
  constructor
  · rw [Array.size_push]
    exact fits
  · rw [Array.size_push]
    refine (h.entries.push _).congr ?_
    intro v _
    simp only [entryFor, variableAt_push]
    by_cases he : v.index = ledger.entries.size <;> simp [he, VarId.recordId]
  · rw [Array.size_push]
    refine (h.records.push _).congr ?_
    intro v _
    rw [variableAt_push]
    split <;> rfl
  · rw [Array.size_push]
    refine (h.parents.push _).congr ?_
    intro v _
    rw [Ledger.parent, variableAt_push]
    split <;> rfl
  · intro other
    rw [Dictionary.get?_insert, lookup_push, h.lookup]
    by_cases he : other = object
    · simp [he, hl, VarId.handle]
    · simp [he, Ne.symm he]

theorem track (h : Represents tracker ledger) (object : ObjectId)
    (fits : (ledger.track object).entries.size ≤ UInt32.size) :
    Represents (tracker.track object).2 (ledger.track object) := by
  cases hl : ledger.lookup object with
  | none =>
    refine h.track_fresh hl ?_
    simpa [track_of_lookup_none hl] using fits
  | some v =>
    rw [track_of_lookup_some hl, Tracker.track, h.lookup, hl]
    exact h

/-- The handle that tracking gives is that of the variable which then tracks the object. -/
theorem track_handle (h : Represents tracker ledger) (object : ObjectId) :
    ∃ v, (ledger.track object).lookup object = some v ∧ (tracker.track object).1 = v.handle := by
  cases hl : ledger.lookup object with
  | none =>
    refine ⟨⟨ledger.entries.size⟩, ?_, ?_⟩
    · rw [track_of_lookup_none hl, lookup_push, hl]
      simp
    · rw [Tracker.track, h.lookup, hl]
      simp [h.entries.size_eq, VarId.handle]
  | some v =>
    refine ⟨v, by rw [track_of_lookup_some hl, hl], ?_⟩
    rw [Tracker.track, h.lookup, hl]
    rfl

/-- Where the dictionary is right about the ledger afterwards, dropping an object from both keeps
the two together. -/
theorem untrack (h : Represents tracker ledger) (object : ObjectId)
    (dropped : ∀ other, (ledger.untrack object).lookup other =
      if other = object then none else ledger.lookup other) :
    ∃ tracker', tracker.untrack object = some ((ledger.lookup object).isSome, tracker') ∧
      Represents tracker' (ledger.untrack object) := by
  cases hl : ledger.lookup object with
  | none =>
    have hsame : ledger.untrack object = ledger := by rw [Ledger.untrack, hl]
    rw [Tracker.untrack, h.lookup, hl, hsame]
    exact ⟨tracker, rfl, h⟩
  | some v =>
    have hv : ledger.Has v := (lookup_some hl).1
    have hplace : v.handle.value.toNat = v.index := h.toNat_place hv
    rw [Tracker.untrack, h.lookup, hl, Option.map_some]
    simp only [h.tracked?_eq hv, hplace]
    refine ⟨_, rfl, ?_⟩
    constructor
    · rw [size_untrack]
      exact h.fits
    · rw [size_untrack]
      refine (h.entries.set v _).congr ?_
      intro w _
      simp only [entryFor, variableAt_untrack, hl]
      by_cases he : w = v
      · simp [he]
      · simp [he, Ne.symm he]
    · rw [size_untrack]
      exact h.records.congr fun w _ => (untrack_frame object w).2
    · rw [size_untrack]
      refine h.parents.congr fun w hw => ?_
      rw [(untrack_extends object).same w hw]
    · intro other
      rw [Dictionary.get?_erase, dropped, h.lookup]
      split <;> rfl

/-- Changing a record through any handle changes it at the keeper of the record. -/
theorem change (h : Represents tracker ledger) (forest : Forest ledger) (hv : ledger.Has v)
    (edit : Usage → Usage)
    (same : ∀ object, (ledger.record edit v).lookup object = ledger.lookup object) :
    ∃ tracker', tracker.change edit v.handle = some tracker' ∧
      Represents tracker' (ledger.record edit v) := by
  have hr := forest.root_here hv
  have hplace : (ledger.root v).recordId.value.toNat = (ledger.root v).index := h.toNat_place hr
  have hchange : tracker.change edit v.handle = some { tracker with
      records := tracker.records.setIfInBounds (ledger.root v).index (edit (ledger.usage v)) } := by
    simp [Tracker.change, h.recordId?_eq forest hv, hplace, h.records.place _ hr, Ledger.usage]
  refine ⟨_, hchange, ?_⟩
  constructor
  · rw [size_record]
    exact h.fits
  · rw [size_record]
    refine h.entries.congr fun w _ => ?_
    rw [entryFor, (record_frame edit v w).1, (record_frame edit v w).2, entryFor]
  · rw [size_record]
    refine (h.records.set (ledger.root v) _).congr ?_
    intro w hw
    rw [Ledger.record, variableAt_modify]
    by_cases he : w = ledger.root v
    · subst he
      simp [hw, Ledger.usage]
    · have hne : w.index ≠ (ledger.root v).index := fun hi => he (congrArg VarId.mk hi)
      simp [he, hne]
  · rw [size_record]
    refine h.parents.congr fun w hw => ?_
    rw [(record_extends edit v).same w hw]
  · intro object
    rw [same]
    exact h.lookup object

/-- Sharing empties the second keeper's record into the first one's, in the tracker as in the
ledger. -/
theorem share (h : Represents tracker ledger) (forest : Forest ledger) {a b : VarId}
    (ha : ledger.Has a) (hb : ledger.Has b)
    (same : ∀ object, (ledger.share a b).lookup object = ledger.lookup object) :
    ∃ tracker', tracker.share a.handle b.handle = some tracker' ∧
      Represents tracker' (ledger.share a b) := by
  have hra := forest.root_here ha
  have hrb := forest.root_here hb
  by_cases hroots : ledger.root a = ledger.root b
  · refine ⟨tracker, ?_, by rwa [share_of_root_eq hroots]⟩
    simp [Tracker.share, h.recordId?_eq forest ha, h.recordId?_eq forest hb, hroots]
  · have hids : (ledger.root a).recordId ≠ (ledger.root b).recordId :=
      fun he => hroots ((h.recordId_inj hra hrb).mp he)
    have hplaceA : (ledger.root a).recordId.value.toNat = (ledger.root a).index :=
      h.toNat_place hra
    have hplaceB : (ledger.root b).recordId.value.toNat = (ledger.root b).index :=
      h.toNat_place hrb
    have hshare : tracker.share a.handle b.handle = some { tracker with
        records := (tracker.records.setIfInBounds (ledger.root b).index .empty).setIfInBounds
          (ledger.root a).index ((ledger.usage a).merge (ledger.usage b))
        parents := tracker.parents.setIfInBounds (ledger.root b).index
          (ledger.root a).recordId } := by
      -- the record of the first keeper is read after the other one has been emptied
      have hkept := (h.records.set (ledger.root b) .empty).place _ hra
      simp [Tracker.share, h.recordId?_eq forest ha, h.recordId?_eq forest hb, hids, hplaceA,
        hplaceB, h.records.place _ hrb, hkept, hroots, Ledger.usage]
    refine ⟨_, hshare, ?_⟩
    constructor
    · rw [size_share]
      exact h.fits
    · rw [size_share]
      refine h.entries.congr fun w _ => ?_
      rw [entryFor, (share_frame forest ha hb w).1, (share_frame forest ha hb w).2, entryFor]
    · rw [size_share]
      refine ((h.records.set (ledger.root b) _).set (ledger.root a) _).congr ?_
      intro w _
      rw [variableAt_share forest ha hb hroots]
      by_cases heb : w = ledger.root b
      · simp [heb, Ne.symm hroots]
      · rw [if_neg heb, if_neg heb]
        split <;> rfl
    · rw [size_share]
      refine (h.parents.set (ledger.root b) _).congr ?_
      intro w _
      rw [parent_share forest ha hb hroots]
      split <;> rfl
    · intro object
      rw [same]
      exact h.lookup object

/-- The active variables are those of the ledger. -/
theorem active_eq (h : Represents tracker ledger) :
    tracker.active = ledger.active.map fun v => (v.handle, entryFor ledger v) := by
  have hlist : tracker.entries.toList.zipIdx =
      (List.range ledger.entries.size).map fun i => (entryFor ledger ⟨i⟩, i) := by
    apply List.ext_getElem?
    intro i
    rw [List.getElem?_zipIdx, List.getElem?_map, Array.getElem?_toList]
    by_cases hi : i < ledger.entries.size
    · simp [h.entries.place ⟨i⟩ hi, List.getElem?_range hi]
    · have hnone : tracker.entries[i]? = none := by
        rw [Array.getElem?_eq_none_iff, h.entries.size_eq]
        exact Nat.le_of_not_lt hi
      simp [hnone, Nat.le_of_not_lt hi]
  rw [Tracker.active, hlist, Ledger.active, List.filter_map, List.filter_map, List.map_map,
    List.map_map]
  rfl

theorem recordCount?_eq (h : Represents tracker ledger) (forest : Forest ledger) :
    tracker.recordCount? = some ledger.recordCount := by
  have here : ∀ v ∈ ledger.active, ledger.Has v := fun v hv => (mem_active.mp hv).1
  have hids : (tracker.active.mapM fun entry => tracker.recordId? entry.1) =
      some (ledger.active.map fun v => (ledger.root v).recordId) := by
    rw [h.active_eq]
    exact mapM_map_eq_some fun v hv => h.recordId?_eq forest (here v hv)
  have hcount : (ledger.active.map fun v => (ledger.root v).recordId).eraseDups.length =
      (ledger.active.map ledger.root).eraseDups.length := by
    refine length_eraseDups_map (.refl _) ?_
    intro v hv w hw
    exact h.recordId_inj (forest.root_here (here v hv)) (forest.root_here (here w hw))
  simp only [recordCount?, hids, Ledger.recordCount, ← hcount]
  rfl

end Represents

def perform (tracker : Tracker) : Operation → Option Tracker
  | .track object => some (tracker.track object).2
  | .untrack object => (tracker.untrack object).map Prod.snd
  | .share a b => tracker.share a.handle b.handle
  | .insert v use => tracker.change (·.add use) v.handle

/-- The tracker after a history, if every operation comes to an end. -/
def replay : History → Option Tracker
  | [] => some .new
  | op :: past => do (← replay past).perform op

theorem Represents.perform {tracker : Tracker} {ledger : Ledger} {op : Operation} {past : History}
    (h : Represents tracker ledger) (before : Follows ledger past)
    (after : Follows (ledger.perform op) (op :: past))
    (given : ∀ v ∈ op.arguments, ledger.Has v)
    (fits : (ledger.perform op).entries.size ≤ UInt32.size) :
    ∃ tracker', tracker.perform op = some tracker' ∧ Represents tracker' (ledger.perform op) := by
  cases op with
  | track object => exact ⟨_, rfl, h.track object fits⟩
  | untrack object =>
    obtain ⟨tracker', hrun, hkept⟩ := h.untrack object (before.lookup_untrack after)
    exact ⟨tracker', by simp [Tracker.perform, hrun], hkept⟩
  | share a b =>
    exact h.share before.forest (given a (by simp [Operation.arguments]))
      (given b (by simp [Operation.arguments])) fun object => before.lookup_congr after rfl rfl
  | insert v use =>
    exact h.change before.forest (given v (by simp [Operation.arguments])) (·.add use)
      fun object => before.lookup_congr after rfl rfl

/-- As long as there are enough handles, a tracker comes to an end with every operation and holds
what the ledger holds. -/
theorem replay_represents {history : History} (valid : Valid history)
    (fits : (issued history).length ≤ UInt32.size) :
    ∃ tracker, replay history = some tracker ∧ Represents tracker (Ledger.replay history) := by
  induction history with
  | nil => exact ⟨.new, rfl, .new⟩
  | cons op past ih =>
    obtain ⟨tracker, hpast, hrepresents⟩ :=
      ih valid.2 (Nat.le_trans (issued_length_le op past) fits)
    have before := replay_follows valid.2
    have after : Follows ((Ledger.replay past).perform op) (op :: past) := replay_follows valid
    obtain ⟨tracker', hlast, hkept⟩ := hrepresents.perform before after
      (fun v hv => before.has_iff.mpr (valid.1 v hv)) (by rwa [after.size])
    exact ⟨tracker', by simp [replay, hpast, hlast], hkept⟩

/-- The tracker answers every question as the history does. -/
structure Reflects (tracker : Tracker) (history : History) : Prop where
  aligned : tracker.entries.size = (issued history).length ∧
    tracker.records.size = (issued history).length ∧
    tracker.parents.size = (issued history).length
  handle_inj : ∀ v w, Issued history v → Issued history w → v.handle = w.handle → v = w
  walk_ends : ∀ v, Issued history v → ∃ record, tracker.recordId? v.handle = some record ∧
    tracker.parents[record.value.toNat]? = some record
  same_record : ∀ v w, Issued history v → Issued history w →
    (tracker.recordId? v.handle = tracker.recordId? w.handle ↔ Connected history v w)
  record : ∀ v, Issued history v → ∃ usage, tracker.record? v.handle = some usage ∧
    usage.Ascending ∧
      ∀ use, usage.Holds use ↔ ∃ w, Connected history v w ∧ .insert w use ∈ history
  emptied : ∀ (i : Nat) (record : RecordId), tracker.parents[i]? = some record →
    record.value.toNat ≠ i → tracker.records[i]? = some .empty
  by_object : ∀ object handle, tracker.byObject.get? object = some handle ↔
    ∃ entry, (handle, entry) ∈ tracker.active ∧ entry.object = object
  lookup : ∀ object handle, tracker.lookup object = some handle ↔
    ∃ v, handle = v.handle ∧ Newest history object v ∧ tracks history object = true
  track : ∀ object, ∃ v, Newest (.track object :: history) object v ∧
    (tracker.track object).1 = v.handle
  untrack : ∀ object, ∃ tracker', tracker.untrack object = some (tracks history object, tracker')
  active : ∀ handle, handle ∈ tracker.active.map Prod.fst ↔
    ∃ v, handle = v.handle ∧ Current history v
  active_objects : ∀ entry ∈ tracker.active,
    (issued history)[entry.1.value.toNat]? = some entry.2.object
  active_order : tracker.active.Pairwise fun a b => a.1.value < b.1.value
  size : tracker.size = {v | Current history v}.ncard
  record_count : tracker.recordCount? =
    some (Set.image (Quotient.mk history.classes) {v | Current history v}).ncard

section Answers

variable {tracker : Tracker} {ledger : Ledger} {history : History}

/-- The objects in the dictionary are those that are tracked, and each has one current variable. -/
theorem Represents.size_eq (h : Represents tracker ledger) (follows : Follows ledger history) :
    tracker.size = {v | Current history v}.ncard := by
  have keys : {object | tracker.byObject.get? object ≠ none} =
      {object | tracks history object = true} := by
    ext object
    rw [Set.mem_ofPred_eq, Set.mem_ofPred_eq, h.lookup, ne_eq, Option.map_eq_none_iff,
      follows.lookup_none_iff, Bool.not_eq_false]
  rw [Tracker.size, Dictionary.size_eq_ncard, keys]
  -- from an object to its newest variable
  refine Set.ncard_congr (fun object tracked => (exists_newest tracked).choose) ?_ ?_ ?_
  · intro object tracked
    exact ⟨object, (exists_newest tracked).choose_spec, tracked⟩
  · intro a b ha hb heq
    exact (heq ▸ (exists_newest ha).choose_spec).object_eq (exists_newest hb).choose_spec
  · rintro v ⟨object, newest, tracked⟩
    exact ⟨object, tracked, (exists_newest tracked).choose_spec.unique newest⟩

theorem Represents.emptied (h : Represents tracker ledger) (follows : Follows ledger history)
    (i : Nat) (record : RecordId) (hparent : tracker.parents[i]? = some record)
    (hmerged : record.value.toNat ≠ i) : tracker.records[i]? = some .empty := by
  obtain ⟨hlt, _⟩ := Array.getElem?_eq_some_iff.mp hparent
  have hv : ledger.Has ⟨i⟩ := by rwa [Has, ← h.parents.size_eq]
  have hother : ledger.parent ⟨i⟩ ≠ ⟨i⟩ := by
    intro self
    rw [h.parents.place ⟨i⟩ hv, self] at hparent
    cases hparent
    exact hmerged (h.toNat_place hv)
  rw [h.records.place ⟨i⟩ hv, follows.emptied ⟨i⟩ hv hother]

/-- The dictionary and the active entries are one to one. -/
theorem Represents.by_object (h : Represents tracker ledger) (follows : Follows ledger history)
    (object : ObjectId) (handle : VarHandle) : tracker.byObject.get? object = some handle ↔
      ∃ entry, (handle, entry) ∈ tracker.active ∧ entry.object = object := by
  rw [h.lookup, h.active_eq, Option.map_eq_some_iff]
  constructor
  · rintro ⟨v, hlookup, rfl⟩
    obtain ⟨hv, active, rfl⟩ := lookup_some hlookup
    exact ⟨_, List.mem_map_of_mem (mem_active.mpr ⟨hv, active⟩), rfl⟩
  · rintro ⟨_, hactive, rfl⟩
    obtain ⟨v, hv, he⟩ := List.mem_map.mp hactive
    cases he
    exact ⟨v, follows.lookup_object hv, rfl⟩

theorem Represents.active_order (h : Represents tracker ledger) :
    tracker.active.Pairwise fun a b => a.1.value < b.1.value := by
  rw [h.active_eq, List.pairwise_map]
  refine ledger.active_ascending.imp_of_mem ?_
  intro v w hv hw hlt
  rw [UInt32.lt_iff_toNat_lt]
  simpa only [VarId.handle, h.toNat_place (mem_active.mp hv).1,
    h.toNat_place (mem_active.mp hw).1] using hlt

end Answers

/-- After every run that issues no more handles than there are words, the walk to a record ends,
the variables with one record are the connected ones, the record holds what was inserted for any
of them, and the tracked variables, their order and the counts are those of the history. -/
theorem replay_reflects (history : History) (valid : Valid history)
    (fits : (issued history).length ≤ UInt32.size) :
    ∃ tracker, replay history = some tracker ∧ tracker.Reflects history := by
  obtain ⟨tracker, hrun, h⟩ := replay_represents valid fits
  have follows := replay_follows valid
  have forest := follows.forest
  have here : ∀ {v}, Issued history v → (Ledger.replay history).Has v :=
    fun hv => follows.has_iff.mpr hv
  refine ⟨tracker, hrun, ?_⟩
  exact {
    aligned := by
      rw [← follows.size]
      exact ⟨h.entries.size_eq, h.records.size_eq, h.parents.size_eq⟩
    handle_inj := fun v w hv hw he => h.handle_inj (here hv) (here hw) he
    walk_ends := fun v hv => by
      have hr := forest.root_here (here hv)
      refine ⟨_, h.recordId?_eq forest (here hv), ?_⟩
      rw [h.parent_eq hr, forest.root_keeps (here hv)]
    same_record := fun v w hv hw => by
      rw [h.recordId?_eq forest (here hv), h.recordId?_eq forest (here hw), Option.some_inj,
        h.recordId_inj (forest.root_here (here hv)) (forest.root_here (here hw))]
      exact follows.connected v w (here hv) (here hw)
    record := fun v hv =>
      ⟨_, h.record?_eq forest (here hv), follows.ascending _, follows.record valid hv⟩
    emptied := h.emptied follows
    by_object := h.by_object follows
    lookup := fun object handle => by
      rw [Tracker.lookup, h.lookup, Option.map_eq_some_iff]
      simp only [follows.lookup_iff, eq_comm (a := handle), and_comm]
    track := fun object => by
      obtain ⟨v, hv, hhandle⟩ := h.track_handle object
      have after := follows.track valid object
      exact ⟨v, (after.lookup_iff.mp hv).1, hhandle⟩
    untrack := fun object => by
      obtain ⟨tracker', hrun, _⟩ :=
        h.untrack object (follows.lookup_untrack (follows.untrack valid object))
      exact ⟨tracker', by rw [hrun, follows.lookup_isSome]⟩
    active := fun handle => by
      rw [h.active_eq, List.map_map, List.mem_map]
      simp only [Function.comp, follows.mem_active_iff, eq_comm (a := handle), and_comm]
    active_objects := fun entry hentry => by
      rw [h.active_eq, List.mem_map] at hentry
      obtain ⟨v, hv, rfl⟩ := hentry
      have hv := (mem_active.mp hv).1
      rw [VarId.handle, h.toNat_place hv, follows.object v hv, entryFor]
    active_order := h.active_order
    size := h.size_eq follows
    record_count := by rw [h.recordCount?_eq forest, follows.recordCount_eq] }

/-- Two objects share a record, then one of them is dropped, used and tracked anew. -/
def retracking : History :=
  [.track ⟨0⟩, .insert ⟨0⟩ (.method "Get"), .untrack ⟨0⟩, .share ⟨0⟩ ⟨1⟩, .insert ⟨1⟩ .cached,
    .track ⟨1⟩, .track ⟨0⟩]

theorem retracking_reflected :
    Valid retracking ∧ (issued retracking).length ≤ UInt32.size ∧
      ∃ tracker, replay retracking = some tracker ∧ tracker.Reflects retracking := by
  have valid : Valid retracking := by
    simp [retracking, Valid, Issued, issued, tracks, Operation.arguments]
  have fits : (issued retracking).length ≤ UInt32.size := by decide
  exact ⟨valid, fits, replay_reflects _ valid fits⟩

end Tracker

/-- The ledger of an analysis is what a tracker holds after the same operations, and the counts are
the ones that the tracker gives. -/
theorem Program.outcome_on_tracker {p : Program} {settings : Settings}
    (unbroken : (p.markUses settings (p.pool (p.collect settings)).1).2 = none)
    (fits : (p.markedLedger settings).entries.size ≤ UInt32.size) (includeTests : Bool) :
    ∃ history tracker, Tracker.replay history = some tracker ∧
      tracker.Represents (p.markedLedger settings) ∧
      tracker.size = (p.outcome settings includeTests).stats.tracked ∧
      tracker.recordCount? = some (p.outcome settings includeTests).stats.sharedRecords := by
  obtain ⟨history, leads⟩ := markedLedger_leadsTo unbroken
  have follows := leads.follows
  obtain ⟨tracker, hrun, h⟩ := Tracker.replay_represents leads.valid (by rwa [← follows.size])
  rw [leads.replays] at h
  refine ⟨history, tracker, hrun, h, ?_, h.recordCount?_eq follows.forest⟩
  rw [h.size_eq follows, ← follows.size_eq, outcome_stats]

end LeastContext

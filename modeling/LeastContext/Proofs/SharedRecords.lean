import LeastContext.Ledger
import LeastContext.Proofs.Chain
import LeastContext.Proofs.UsageSets
import Mathlib.Logic.Function.Iterate

namespace LeastContext.Ledger

variable {ledger ledger' : Ledger} {v w : VarId}

def Has (ledger : Ledger) (v : VarId) : Prop :=
  v.index < ledger.entries.size

def parent (ledger : Ledger) (v : VarId) : VarId :=
  (ledger.variableAt v).parent

open Classical in
/-- The variable that another one points at; the keeper of a record points at none. -/
noncomputable def pointsAt (ledger : Ledger) (v : VarId) : Option VarId :=
  if ledger.Has v ∧ ledger.parent v ≠ v then some (ledger.parent v) else none

theorem pointsAt_eq_some (h : ledger.pointsAt v = some w) :
    ledger.Has v ∧ ledger.parent v = w ∧ w ≠ v := by
  unfold pointsAt at h
  split at h
  · rename_i hv
    cases h
    exact ⟨hv.1, rfl, hv.2⟩
  · cases h

theorem pointsAt_eq_none (hv : ledger.Has v) : ledger.pointsAt v = none ↔ ledger.parent v = v := by
  simp [pointsAt, hv]

/-- The pointers stay in the ledger and from every variable lead to one that keeps a record. -/
structure Forest (ledger : Ledger) : Prop where
  closed : ∀ v, ledger.Has v → ledger.Has (ledger.parent v)
  ends : ∀ v, ledger.Has v → ∃ vs r, Chain ledger.pointsAt v vs r

theorem walk_length_le {vs : List VarId} {r : VarId} (h : Chain ledger.pointsAt v vs r) :
    vs.length ≤ ledger.entries.size := by
  have := h.length_le ((List.range ledger.entries.size).map VarId.mk) (by
    intro x y hs
    exact List.mem_map.mpr ⟨x.index, List.mem_range.mpr (pointsAt_eq_some hs).1, rfl⟩)
  simpa using this

namespace Forest

variable {vs : List VarId} {r : VarId}

theorem chain_inside (forest : Forest ledger) (h : Chain ledger.pointsAt v vs r)
    (hv : ledger.Has v) : ledger.Has r := by
  refine (h.closed ledger.Has ?_ hv).2
  intro x y hx hs
  obtain ⟨_, rfl, _⟩ := pointsAt_eq_some hs
  exact forest.closed x hx

theorem rootWithin_eq (forest : Forest ledger) (h : Chain ledger.pointsAt v vs r)
    (hv : ledger.Has v) {steps : Nat} (hs : vs.length ≤ steps) :
    ledger.rootWithin steps v = r ∧ ledger.parent^[vs.length] v = r := by
  induction h generalizing steps with
  | stop last =>
    refine ⟨?_, rfl⟩
    cases steps with
    | zero => rfl
    | succ steps =>
      rw [rootWithin]
      exact if_pos ((pointsAt_eq_none hv).mp last)
  | link step _ ih =>
    obtain ⟨_, rfl, hne⟩ := pointsAt_eq_some step
    cases steps with
    | zero => simp at hs
    | succ steps =>
      obtain ⟨hroot, hwalk⟩ := ih (forest.closed _ hv) (Nat.le_of_succ_le_succ hs)
      rw [rootWithin]
      exact ⟨(if_neg hne).trans hroot, hwalk⟩

theorem root_eq (forest : Forest ledger) (h : Chain ledger.pointsAt v vs r)
    (hv : ledger.Has v) : ledger.root v = r :=
  (forest.rootWithin_eq h hv (walk_length_le h)).1

theorem chain (forest : Forest ledger) (hv : ledger.Has v) :
    ∃ vs, Chain ledger.pointsAt v vs (ledger.root v) := by
  obtain ⟨vs, r, h⟩ := forest.ends v hv
  rw [forest.root_eq h hv]
  exact ⟨vs, h⟩

theorem root_here (forest : Forest ledger) (hv : ledger.Has v) : ledger.Has (ledger.root v) := by
  obtain ⟨vs, h⟩ := forest.chain hv
  exact forest.chain_inside h hv

theorem root_keeps (forest : Forest ledger) (hv : ledger.Has v) :
    ledger.parent (ledger.root v) = ledger.root v := by
  obtain ⟨vs, h⟩ := forest.chain hv
  exact (pointsAt_eq_none (forest.root_here hv)).mp h.end_stops

/-- Following the parents leads to the keeper after finitely many steps. -/
theorem walk_ends (forest : Forest ledger) (hv : ledger.Has v) :
    ∃ steps, ledger.parent^[steps] v = ledger.root v := by
  obtain ⟨vs, h⟩ := forest.chain hv
  exact ⟨vs.length, (forest.rootWithin_eq h hv (walk_length_le h)).2⟩

theorem root_of_keeper (forest : Forest ledger) (hv : ledger.Has v)
    (self : ledger.parent v = v) : ledger.root v = v :=
  forest.root_eq (.stop ((pointsAt_eq_none hv).mpr self)) hv

end Forest

/-- A ledger that keeps the variables and the pointers of another one and adds only keepers. -/
structure Extends (ledger' ledger : Ledger) : Prop where
  size : ledger.entries.size ≤ ledger'.entries.size
  same : ∀ v, ledger.Has v → ledger'.parent v = ledger.parent v
  fresh : ∀ v, ledger'.Has v → ¬ ledger.Has v → ledger'.parent v = v

namespace Extends

theorem has (h : Extends ledger' ledger) (hv : ledger.Has v) : ledger'.Has v :=
  Nat.lt_of_lt_of_le hv h.size

theorem pointsAt_eq (h : Extends ledger' ledger) (hv : ledger.Has v) :
    ledger'.pointsAt v = ledger.pointsAt v := by
  simp [pointsAt, hv, h.has hv, h.same v hv]

theorem chain (h : Extends ledger' ledger) (forest : Forest ledger) (hv : ledger.Has v)
    {vs : List VarId} {r : VarId} (hc : Chain ledger.pointsAt v vs r) :
    Chain ledger'.pointsAt v vs r := by
  induction hc with
  | stop last => exact .stop ((h.pointsAt_eq hv).trans last)
  | link step _ ih =>
    refine .link ((h.pointsAt_eq hv).trans step) (ih ?_)
    obtain ⟨_, rfl, _⟩ := pointsAt_eq_some step
    exact forest.closed _ hv

theorem forest (h : Extends ledger' ledger) (forest : Forest ledger) : Forest ledger' := by
  constructor
  · intro v hv
    by_cases hold : ledger.Has v
    · rw [h.same v hold]
      exact h.has (forest.closed v hold)
    · rwa [h.fresh v hv hold]
  · intro v hv
    by_cases hold : ledger.Has v
    · obtain ⟨vs, r, hc⟩ := forest.ends v hold
      exact ⟨vs, r, h.chain forest hold hc⟩
    · exact ⟨[], v, .stop ((pointsAt_eq_none hv).mpr (h.fresh v hv hold))⟩

theorem root_eq (h : Extends ledger' ledger) (forest : Forest ledger) (hv : ledger.Has v) :
    ledger'.root v = ledger.root v := by
  obtain ⟨vs, hc⟩ := forest.chain hv
  exact (h.forest forest).root_eq (h.chain forest hv hc) (h.has hv)

theorem root_fresh (h : Extends ledger' ledger) (forest : Forest ledger) (hv : ledger'.Has v)
    (hn : ¬ ledger.Has v) : ledger'.root v = v :=
  (h.forest forest).root_of_keeper hv (h.fresh v hv hn)

end Extends

theorem variableAt_modify (ledger : Ledger) (i : Nat) (change : Variable → Variable) (v : VarId) :
    (Ledger.mk (ledger.entries.modify i change)).variableAt v =
      if v.index = i ∧ v.index < ledger.entries.size then change (ledger.variableAt v)
      else ledger.variableAt v := by
  simp only [variableAt, Array.getD_eq_getD_getElem?, Array.getElem?_modify]
  by_cases hi : i = v.index
  · subst hi
    by_cases hv : v.index < ledger.entries.size <;> simp [hv]
  · have hi' : v.index ≠ i := fun h => hi h.symm
    simp [hi, hi']

/-- An update of one entry that leaves its pointer alone leaves all pointers alone. -/
theorem modify_extends (i : Nat) {change : Variable → Variable}
    (keeps : ∀ entry, (change entry).parent = entry.parent) :
    Extends ⟨ledger.entries.modify i change⟩ ledger := by
  have same : ∀ v, (Ledger.mk (ledger.entries.modify i change)).parent v = ledger.parent v := by
    intro v
    rw [parent, variableAt_modify]
    split
    · exact keeps _
    · rfl
  refine ⟨by simp, fun v _ => same v, ?_⟩
  intro v hv hn
  exact absurd (by simpa [Has] using hv) hn

theorem record_extends (change : Usage → Usage) (v : VarId) :
    Extends (ledger.record change v) ledger :=
  modify_extends _ (fun _ => rfl)

theorem untrack_extends (object : ObjectId) : Extends (ledger.untrack object) ledger := by
  unfold untrack
  split
  · exact modify_extends _ (fun _ => rfl)
  · exact ⟨Nat.le_refl _, fun _ _ => rfl, fun _ hv hn => absurd hv hn⟩

theorem lookup_some {object : ObjectId} (h : ledger.lookup object = some v) :
    ledger.Has v ∧ (ledger.variableAt v).active = true ∧
      (ledger.variableAt v).object = object := by
  obtain ⟨i, hi, rfl⟩ := Option.map_eq_some_iff.mp h
  obtain ⟨hlt, hp, _⟩ := Array.findIdx?_eq_some_iff_getElem.mp hi
  simpa [Has, hlt, variableAt, Array.getD] using hp

theorem lookup_none {object : ObjectId} (h : ledger.lookup object = none) (hv : ledger.Has v)
    (active : (ledger.variableAt v).active = true) : (ledger.variableAt v).object ≠ object := by
  have hi := Option.map_eq_none_iff.mp h
  rw [Array.findIdx?_eq_none_iff] at hi
  have hn := hi (ledger.variableAt v) (by
    have hlt : v.index < ledger.entries.size := hv
    simp [variableAt, Array.getD, hlt])
  simpa [active] using hn

theorem track_of_lookup_none {object : ObjectId} (h : ledger.lookup object = none) :
    ledger.track object =
      ⟨ledger.entries.push ⟨object, true, ⟨ledger.entries.size⟩, .empty⟩⟩ := by
  rw [track, h]

theorem track_of_lookup_some {object : ObjectId} (h : ledger.lookup object = some v) :
    ledger.track object = ledger := by
  rw [track, h]

theorem variableAt_push (entry : Variable) (v : VarId) :
    (Ledger.mk (ledger.entries.push entry)).variableAt v =
      if v.index = ledger.entries.size then entry else ledger.variableAt v := by
  simp only [variableAt, Array.getD_eq_getD_getElem?, Array.getElem?_push]
  split <;> rfl

theorem track_extends (object : ObjectId) : Extends (ledger.track object) ledger := by
  cases h : ledger.lookup object with
  | some v =>
    rw [track_of_lookup_some h]
    exact ⟨Nat.le_refl _, fun _ _ => rfl, fun _ hv hn => absurd hv hn⟩
  | none =>
    rw [track_of_lookup_none h]
    refine ⟨by simp, ?_, ?_⟩
    · intro v hv
      rw [parent, variableAt_push, if_neg (Nat.ne_of_lt hv)]
      rfl
    · intro v hv hn
      have he : v.index = ledger.entries.size := by
        simp only [Has, Array.size_push] at hv hn
        omega
      rw [parent, variableAt_push, if_pos he]
      exact congrArg VarId.mk he.symm

theorem record_frame (change : Usage → Usage) (v w : VarId) :
    ((ledger.record change v).variableAt w).object = (ledger.variableAt w).object ∧
      ((ledger.record change v).variableAt w).active = (ledger.variableAt w).active := by
  rw [record, variableAt_modify]
  split <;> exact ⟨rfl, rfl⟩

theorem size_record (change : Usage → Usage) (v : VarId) :
    (ledger.record change v).entries.size = ledger.entries.size := by
  simp [record]

/-- Changing the record of a variable changes it for those that share it and for no other. -/
theorem usage_record (forest : Forest ledger) (change : Usage → Usage) (hv : ledger.Has v)
    (hw : ledger.Has w) :
    (ledger.record change v).usage w =
      if ledger.root w = ledger.root v then change (ledger.usage w) else ledger.usage w := by
  have hroot := (record_extends change v).root_eq forest hw
  rw [usage, hroot, record, variableAt_modify]
  by_cases he : ledger.root w = ledger.root v
  · have hin : (ledger.root v).index < ledger.entries.size := forest.root_here hv
    simp [he, hin, usage]
  · have hne : (ledger.root w).index ≠ (ledger.root v).index :=
      fun hi => he (congrArg VarId.mk hi)
    simp [he, hne, usage]

theorem size_untrack (object : ObjectId) :
    (ledger.untrack object).entries.size = ledger.entries.size := by
  unfold untrack
  split <;> simp

/-- Dropping an object clears the mark of the variable that tracks it and changes nothing else. -/
theorem variableAt_untrack (object : ObjectId) (v : VarId) :
    (ledger.untrack object).variableAt v =
      if ledger.lookup object = some v then { ledger.variableAt v with active := false }
      else ledger.variableAt v := by
  cases hl : ledger.lookup object with
  | none => simp [untrack, hl]
  | some u =>
    have hu : u.index < ledger.entries.size := (lookup_some hl).1
    rw [untrack, hl]
    simp only [variableAt_modify, Option.some.injEq]
    by_cases he : v = u
    · subst he
      simp [hu]
    · have hi : v.index ≠ u.index := fun h => he (congrArg VarId.mk h)
      simp [hi, Ne.symm he]

theorem untrack_frame (object : ObjectId) (v : VarId) :
    ((ledger.untrack object).variableAt v).object = (ledger.variableAt v).object ∧
      ((ledger.untrack object).variableAt v).usage = (ledger.variableAt v).usage := by
  rw [variableAt_untrack]
  split <;> exact ⟨rfl, rfl⟩

theorem usage_untrack (forest : Forest ledger) (object : ObjectId) (hv : ledger.Has v) :
    (ledger.untrack object).usage v = ledger.usage v := by
  rw [usage, (untrack_extends object).root_eq forest hv, (untrack_frame object _).2, usage]

/-- Tracking an object adds at most a variable whose record is empty. -/
theorem usage_track (forest : Forest ledger) (object : ObjectId) :
    (ledger.Has v → (ledger.track object).usage v = ledger.usage v) ∧
      ((ledger.track object).Has v → ¬ ledger.Has v → (ledger.track object).usage v = .empty) := by
  have kept : Extends (ledger.track object) ledger := track_extends object
  cases hl : ledger.lookup object with
  | some u =>
    rw [track_of_lookup_some hl]
    exact ⟨fun _ => rfl, fun hv hn => absurd hv hn⟩
  | none =>
    constructor
    · intro hv
      rw [usage, kept.root_eq forest hv, track_of_lookup_none hl, variableAt_push,
        if_neg (Nat.ne_of_lt (forest.root_here hv)), usage]
    · intro hv hn
      rw [usage, kept.root_fresh forest hv hn, track_of_lookup_none hl, variableAt_push, if_pos]
      simp only [track_of_lookup_none hl, Has, Array.size_push] at hv hn
      omega

theorem usage_of_root_eq (h : ledger.root v = ledger.root w) : ledger.usage v = ledger.usage w := by
  rw [usage, usage, h]

section Share

variable {a b : VarId}

theorem share_of_root_eq (h : ledger.root a = ledger.root b) : ledger.share a b = ledger := by
  rw [share]
  exact if_pos h

/-- Sharing empties one keeper's record into the other's and redirects its pointer. -/
theorem variableAt_share (forest : Forest ledger) (ha : ledger.Has a) (hb : ledger.Has b)
    (hne : ledger.root a ≠ ledger.root b) (v : VarId) :
    (ledger.share a b).variableAt v =
      if v = ledger.root b then
        { ledger.variableAt v with parent := ledger.root a, usage := .empty }
      else if v = ledger.root a then
        { ledger.variableAt v with usage := (ledger.usage a).merge (ledger.usage b) }
      else ledger.variableAt v := by
  have hra : (ledger.root a).index < ledger.entries.size := forest.root_here ha
  have hrb : (ledger.root b).index < ledger.entries.size := forest.root_here hb
  have index_eq : ∀ u : VarId, v.index = u.index ↔ v = u := by
    intro u
    exact ⟨fun h => congrArg VarId.mk h, congrArg VarId.index⟩
  obtain ⟨mid, hmid⟩ : ∃ mid : Ledger, mid = ⟨ledger.entries.modify (ledger.root a).index
      fun entry => { entry with usage := entry.usage.merge (ledger.usage b) }⟩ := ⟨_, rfl⟩
  have hs : ledger.share a b = ⟨mid.entries.modify (ledger.root b).index fun entry =>
      { entry with parent := ledger.root a, usage := .empty }⟩ := by
    rw [share, hmid]
    exact if_neg hne
  rw [hs, variableAt_modify, hmid, variableAt_modify]
  simp only [index_eq, Array.size_modify]
  by_cases hvb : v = ledger.root b
  · subst hvb
    simp [hrb, Ne.symm hne]
  · by_cases hva : v = ledger.root a
    · subst hva
      simp [hra, hne, usage]
    · simp [hva, hvb]

theorem size_share : (ledger.share a b).entries.size = ledger.entries.size := by
  unfold share
  dsimp only
  split <;> simp

theorem share_frame (forest : Forest ledger) (ha : ledger.Has a) (hb : ledger.Has b) (v : VarId) :
    ((ledger.share a b).variableAt v).object = (ledger.variableAt v).object ∧
      ((ledger.share a b).variableAt v).active = (ledger.variableAt v).active := by
  by_cases hne : ledger.root a = ledger.root b
  · rw [share_of_root_eq hne]
    exact ⟨rfl, rfl⟩
  · rw [variableAt_share forest ha hb hne]
    split
    · exact ⟨rfl, rfl⟩
    · split <;> exact ⟨rfl, rfl⟩

theorem parent_share (forest : Forest ledger) (ha : ledger.Has a) (hb : ledger.Has b)
    (hne : ledger.root a ≠ ledger.root b) (v : VarId) :
    (ledger.share a b).parent v = if v = ledger.root b then ledger.root a else ledger.parent v := by
  rw [parent, variableAt_share forest ha hb hne]
  split
  · rfl
  · split <;> rfl

/-- A walk that ended at the absorbed keeper goes one step further, any other one is as it was. -/
theorem chain_share (forest : Forest ledger) (ha : ledger.Has a) (hb : ledger.Has b)
    (hne : ledger.root a ≠ ledger.root b) {vs : List VarId} {r : VarId} (hv : ledger.Has v)
    (h : Chain ledger.pointsAt v vs r) :
    ∃ ws, Chain (ledger.share a b).pointsAt v ws
      (if r = ledger.root b then ledger.root a else r) := by
  have has : ∀ u, (ledger.share a b).Has u ↔ ledger.Has u := by
    intro u
    rw [Has, Has, size_share]
  induction h with
  | @stop v last =>
    have self := (pointsAt_eq_none hv).mp last
    by_cases hvb : v = ledger.root b
    · have hra := (has _).mpr (forest.root_here ha)
      have stop : (ledger.share a b).pointsAt (ledger.root a) = none := by
        rw [pointsAt_eq_none hra, parent_share forest ha hb hne, if_neg hne]
        exact forest.root_keeps ha
      have step : (ledger.share a b).pointsAt v = some (ledger.root a) := by
        have hp := parent_share forest ha hb hne v
        rw [if_pos hvb] at hp
        have hne' : ledger.root a ≠ v := by rwa [hvb]
        simp [pointsAt, has, hv, hp, hne']
      rw [if_pos hvb]
      exact ⟨[v], .link step (.stop stop)⟩
    · rw [if_neg hvb]
      refine ⟨[], .stop ?_⟩
      rw [pointsAt_eq_none ((has v).mpr hv), parent_share forest ha hb hne, if_neg hvb]
      exact self
  | @link v _ _ _ step _ ih =>
    obtain ⟨_, rfl, hother⟩ := pointsAt_eq_some step
    obtain ⟨ws, hw⟩ := ih (forest.closed v hv)
    have hvb : v ≠ ledger.root b := by
      rintro rfl
      exact hother (forest.root_keeps hb)
    refine ⟨v :: ws, .link ?_ hw⟩
    have hp := parent_share forest ha hb hne v
    rw [if_neg hvb] at hp
    simp [pointsAt, has, hv, hp, hother]

theorem Forest.share (forest : Forest ledger) (ha : ledger.Has a) (hb : ledger.Has b) :
    Forest (ledger.share a b) := by
  by_cases hne : ledger.root a = ledger.root b
  · rwa [share_of_root_eq hne]
  · constructor
    · intro v hv
      rw [Has, size_share] at hv ⊢
      rw [parent_share forest ha hb hne]
      split
      · exact forest.root_here ha
      · exact forest.closed v hv
    · intro v hv
      rw [Has, size_share] at hv
      obtain ⟨vs, r, h⟩ := forest.ends v hv
      obtain ⟨ws, hw⟩ := chain_share forest ha hb hne hv h
      exact ⟨ws, _, hw⟩

/-- After sharing, what the second variable's keeper kept is kept by the first one's. -/
theorem root_share (forest : Forest ledger) (ha : ledger.Has a) (hb : ledger.Has b)
    (hv : ledger.Has v) :
    (ledger.share a b).root v =
      if ledger.root v = ledger.root b then ledger.root a else ledger.root v := by
  by_cases hne : ledger.root a = ledger.root b
  · rw [share_of_root_eq hne]
    split
    · rename_i h
      exact h.trans hne.symm
    · rfl
  · obtain ⟨vs, h⟩ := forest.chain hv
    obtain ⟨ws, hw⟩ := chain_share forest ha hb hne hv h
    refine (forest.share ha hb).root_eq hw ?_
    rwa [Has, size_share]

/-- Two variables have one record after sharing if they had one before or are both of the groups
that were joined. -/
theorem root_share_eq_iff (forest : Forest ledger) (ha : ledger.Has a) (hb : ledger.Has b)
    (hv : ledger.Has v) (hw : ledger.Has w) :
    (ledger.share a b).root v = (ledger.share a b).root w ↔
      ledger.root v = ledger.root w ∨
        (ledger.root v = ledger.root a ∨ ledger.root v = ledger.root b) ∧
          (ledger.root w = ledger.root a ∨ ledger.root w = ledger.root b) := by
  rw [root_share forest ha hb hv, root_share forest ha hb hw]
  split <;> split <;> grind

theorem ascending_record {change : Usage → Usage}
    (keeps : ∀ usage : Usage, usage.Ascending → (change usage).Ascending)
    (h : ∀ v, (ledger.variableAt v).usage.Ascending) (v w : VarId) :
    ((ledger.record change v).variableAt w).usage.Ascending := by
  rw [record, variableAt_modify]
  split
  · exact keeps _ (h w)
  · exact h w

theorem ascending_share (forest : Forest ledger) (ha : ledger.Has a) (hb : ledger.Has b)
    (h : ∀ v, (ledger.variableAt v).usage.Ascending) (v : VarId) :
    ((ledger.share a b).variableAt v).usage.Ascending := by
  by_cases hne : ledger.root a = ledger.root b
  · rw [share_of_root_eq hne]
    exact h v
  · rw [variableAt_share forest ha hb hne]
    split
    · exact ⟨.nil, .nil⟩
    · split
      · exact (h _).merge _
      · exact h v

/-- After sharing, both groups have one record that holds what either record held. -/
theorem holds_share (forest : Forest ledger) (ha : ledger.Has a) (hb : ledger.Has b)
    (hv : ledger.Has v) (use : Use) :
    ((ledger.share a b).usage v).Holds use ↔
      if ledger.root v = ledger.root a ∨ ledger.root v = ledger.root b then
        (ledger.usage a).Holds use ∨ (ledger.usage b).Holds use
      else (ledger.usage v).Holds use := by
  by_cases hne : ledger.root a = ledger.root b
  · rw [share_of_root_eq hne]
    split
    · rename_i h
      have hva : ledger.root v = ledger.root a := h.elim id (fun h => h.trans hne.symm)
      rw [usage_of_root_eq hva, usage_of_root_eq hne, or_self]
    · rfl
  · rw [usage, root_share forest ha hb hv, variableAt_share forest ha hb hne]
    by_cases hvb : ledger.root v = ledger.root b
    · simp [hvb, hne, Usage.holds_merge]
    · by_cases hva : ledger.root v = ledger.root a
      · simp [hva, hne, Usage.holds_merge]
      · simp [hva, hvb, usage]

end Share

end LeastContext.Ledger

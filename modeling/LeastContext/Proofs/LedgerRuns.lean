import LeastContext.Proofs.LedgerHistory
import LeastContext.Proofs.Lists
import LeastContext.Proofs.SharedRecords
import Mathlib.Data.Set.Card

namespace LeastContext

namespace Ledger

open History

def perform (ledger : Ledger) : Operation → Ledger
  | .track object => ledger.track object
  | .untrack object => ledger.untrack object
  | .share a b => ledger.share a b
  | .insert v use => ledger.record (·.add use) v

/-- The ledger after a history. -/
def replay : History → Ledger
  | [] => .empty
  | op :: past => (replay past).perform op

/-- What one operation after the other keeps true of a ledger and its history. -/
structure Follows (ledger : Ledger) (history : History) : Prop where
  forest : Forest ledger
  size : ledger.entries.size = (issued history).length
  object : ∀ v, ledger.Has v → (issued history)[v.index]? = some (ledger.variableAt v).object
  active : ∀ v, ledger.Has v → ((ledger.variableAt v).active = true ↔ Current history v)
  connected : ∀ v w, ledger.Has v → ledger.Has w →
    (ledger.root v = ledger.root w ↔ Connected history v w)
  holds : ∀ v, ledger.Has v → ∀ use, (ledger.usage v).Holds use ↔
    ∃ w, ledger.Has w ∧ ledger.root v = ledger.root w ∧ .insert w use ∈ history
  emptied : ∀ v, ledger.Has v → ledger.parent v ≠ v → (ledger.variableAt v).usage = .empty
  ascending : ∀ v, (ledger.variableAt v).usage.Ascending

namespace Follows

variable {ledger : Ledger} {past : History}

theorem has_iff (h : Follows ledger past) {v : VarId} : ledger.Has v ↔ Issued past v := by
  rw [Has, Issued, h.size]

theorem lookup_iff (h : Follows ledger past) {object : ObjectId} {v : VarId} :
    ledger.lookup object = some v ↔ Newest past object v ∧ tracks past object = true := by
  have newest : ∀ u, ledger.lookup object = some u →
      Newest past object u ∧ tracks past object = true := by
    intro u hu
    obtain ⟨hin, hact, rfl⟩ := lookup_some hu
    obtain ⟨other, hn, ht⟩ := (h.active u hin).mp hact
    obtain rfl := Option.some.inj (hn.1.symm.trans (h.object u hin))
    exact ⟨hn, ht⟩
  refine ⟨newest v, ?_⟩
  intro hcurrent
  obtain ⟨hn, ht⟩ := hcurrent
  have hin := h.has_iff.mpr hn.issued
  have hact := (h.active v hin).mpr ⟨object, hn, ht⟩
  have hobj := Option.some.inj (hn.1.symm.trans (h.object v hin))
  cases hl : ledger.lookup object with
  | none => exact absurd hobj.symm (lookup_none hl hin hact)
  | some u => rw [(newest u hl).1.unique hn]

theorem lookup_none_iff (h : Follows ledger past) {object : ObjectId} :
    ledger.lookup object = none ↔ tracks past object = false := by
  cases ht : tracks past object with
  | false =>
    simp only [iff_true]
    cases hl : ledger.lookup object with
    | none => rfl
    | some v =>
      have := (h.lookup_iff.mp hl).2
      rw [ht] at this
      cases this
  | true =>
    obtain ⟨v, hn⟩ := exists_newest ht
    rw [h.lookup_iff.mpr ⟨hn, ht⟩]
    simp

theorem empty : Follows .empty [] where
  forest := ⟨fun _ hv => absurd hv (Nat.not_lt_zero _), fun _ hv => absurd hv (Nat.not_lt_zero _)⟩
  size := rfl
  object := fun _ hv => absurd hv (Nat.not_lt_zero _)
  active := fun _ hv => absurd hv (Nat.not_lt_zero _)
  connected := fun _ _ hv => absurd hv (Nat.not_lt_zero _)
  holds := fun _ hv => absurd hv (Nat.not_lt_zero _)
  emptied := fun _ hv => absurd hv (Nat.not_lt_zero _)
  ascending := by
    intro v
    simp [variableAt, Ledger.empty]
    exact ⟨List.Pairwise.nil, List.Pairwise.nil⟩

/-- Sharing connects exactly the members of the two groups. -/
theorem connected_share (h : Follows ledger past) (valid : Valid past) {a b v w : VarId}
    (ha : ledger.Has a) (hb : ledger.Has b) (hv : ledger.Has v) (hw : ledger.Has w) :
    (ledger.share a b).root v = (ledger.share a b).root w ↔
      Connected (.share a b :: past) v w := by
  have older : ∀ x y, ledger.Has x → ledger.Has y → ledger.root x = ledger.root y →
      Connected (.share a b :: past) x y :=
    fun x y hx hy he => Connected.older ((h.connected x y hx hy).mp he)
  have joined : Connected (.share a b :: past) a b := .rel a b List.mem_cons_self
  constructor
  · intro he
    rcases (root_share_eq_iff h.forest ha hb hv hw).mp he with he | ⟨hva | hvb, hwa | hwb⟩
    · exact older v w hv hw he
    · exact older v w hv hw (hva.trans hwa.symm)
    · exact .trans _ _ _ (older v a hv ha hva)
        (.trans _ _ _ joined (older b w hb hw hwb.symm))
    · exact .trans _ _ _ (older v b hv hb hvb)
        (.trans _ _ _ (.symm _ _ joined) (older a w ha hw hwa.symm))
    · exact older v w hv hw (hvb.trans hwb.symm)
  · intro hc
    refine hc.value _ ?_
    intro x y hm
    rcases List.mem_cons.mp hm with he | hm
    · cases he
      exact (root_share_eq_iff h.forest ha hb ha hb).mpr (.inr ⟨.inl rfl, .inr rfl⟩)
    · have hx := h.has_iff.mpr (valid.share_issued hm).1
      have hy := h.has_iff.mpr (valid.share_issued hm).2
      have he := (h.connected x y hx hy).mpr (.rel x y hm)
      exact (root_share_eq_iff h.forest ha hb hx hy).mpr (.inl he)

theorem holds_share (h : Follows ledger past) {a b v : VarId} (ha : ledger.Has a)
    (hb : ledger.Has b) (hv : ledger.Has v) (use : Use) :
    ((ledger.share a b).usage v).Holds use ↔ ∃ w, ledger.Has w ∧
      (ledger.share a b).root v = (ledger.share a b).root w ∧ .insert w use ∈ past := by
  have root := fun w (hw : ledger.Has w) => root_share_eq_iff h.forest ha hb hv hw
  rw [Ledger.holds_share h.forest ha hb hv]
  split
  · rename_i hj
    rw [h.holds a ha, h.holds b hb]
    constructor
    · intro hheld
      rcases hheld with ⟨w, hw, he, hm⟩ | ⟨w, hw, he, hm⟩
      · exact ⟨w, hw, (root w hw).mpr (.inr ⟨hj, .inl he.symm⟩), hm⟩
      · exact ⟨w, hw, (root w hw).mpr (.inr ⟨hj, .inr he.symm⟩), hm⟩
    · intro hheld
      obtain ⟨w, hw, he, hm⟩ := hheld
      rcases (root w hw).mp he with he | ⟨_, he | he⟩
      · rcases hj with hj | hj
        · exact .inl ⟨w, hw, hj.symm.trans he, hm⟩
        · exact .inr ⟨w, hw, hj.symm.trans he, hm⟩
      · exact .inl ⟨w, hw, he.symm, hm⟩
      · exact .inr ⟨w, hw, he.symm, hm⟩
  · rename_i hj
    rw [h.holds v hv]
    constructor
    · intro hheld
      obtain ⟨w, hw, he, hm⟩ := hheld
      exact ⟨w, hw, (root w hw).mpr (.inl he), hm⟩
    · intro hheld
      obtain ⟨w, hw, he, hm⟩ := hheld
      rcases (root w hw).mp he with he | ⟨hj', _⟩
      · exact ⟨w, hw, he, hm⟩
      · exact absurd hj' hj

theorem emptied_share (h : Follows ledger past) {a b : VarId} (ha : ledger.Has a)
    (hb : ledger.Has b) (v : VarId) (hv : (ledger.share a b).Has v)
    (hmerged : (ledger.share a b).parent v ≠ v) :
    ((ledger.share a b).variableAt v).usage = .empty := by
  rw [Has, size_share] at hv
  by_cases hne : ledger.root a = ledger.root b
  · rw [share_of_root_eq hne] at hmerged ⊢
    exact h.emptied v hv hmerged
  · rw [parent_share h.forest ha hb hne] at hmerged
    rw [variableAt_share h.forest ha hb hne]
    by_cases hvb : v = ledger.root b
    · rw [if_pos hvb]
    · rw [if_neg hvb] at hmerged
      have hva : v ≠ ledger.root a := by
        rintro rfl
        exact hmerged (h.forest.root_keeps ha)
      rw [if_neg hvb, if_neg hva]
      exact h.emptied v hv hmerged

theorem share (h : Follows ledger past) (valid : Valid past) {a b : VarId} (ha : ledger.Has a)
    (hb : ledger.Has b) : Follows (ledger.share a b) (.share a b :: past) := by
  have has : ∀ u, (ledger.share a b).Has u ↔ ledger.Has u := by
    intro u
    rw [Has, Has, size_share]
  refine ⟨h.forest.share ha hb, size_share.trans h.size, ?_, ?_, ?_, ?_,
    h.emptied_share ha hb, ascending_share h.forest ha hb h.ascending⟩
  · intro v hv
    rw [(share_frame h.forest ha hb v).1]
    exact h.object v ((has v).mp hv)
  · intro v hv
    rw [(share_frame h.forest ha hb v).2]
    exact h.active v ((has v).mp hv)
  · intro v w hv hw
    exact h.connected_share valid ha hb ((has v).mp hv) ((has w).mp hw)
  · intro v hv use
    simpa [has] using h.holds_share ha hb ((has v).mp hv) use

section Extension

variable {ledger' : Ledger} {op : Operation}

/-- An operation that adds at most keepers connects nothing. -/
theorem connected_extends (h : Follows ledger past) (valid : Valid past)
    (kept : Extends ledger' ledger) (hop : ∀ a b, op ≠ .share a b) (v w : VarId)
    (hv : ledger'.Has v) (hw : ledger'.Has w) :
    ledger'.root v = ledger'.root w ↔ Connected (op :: past) v w := by
  rw [connected_cons hop]
  by_cases hold : ledger.Has v ∧ ledger.Has w
  · rw [kept.root_eq h.forest hold.1, kept.root_eq h.forest hold.2]
    exact h.connected v w hold.1 hold.2
  · constructor
    · intro he
      -- one of the two is its own keeper, and the other one's keeper is not older than it is
      have hvw : v = w := by
        by_cases hov : ledger.Has v
        · have how : ¬ ledger.Has w := fun how => hold ⟨hov, how⟩
          rw [kept.root_eq h.forest hov, kept.root_fresh h.forest hw how] at he
          exact absurd (he ▸ h.forest.root_here hov) how
        · rw [kept.root_fresh h.forest hv hov] at he
          by_cases how : ledger.Has w
          · rw [kept.root_eq h.forest how] at he
            exact absurd (he ▸ h.forest.root_here how) hov
          · rw [he, kept.root_fresh h.forest hw how]
      exact hvw ▸ .refl v
    · intro hc
      rcases hc.eq_or_issued valid with rfl | ⟨hov, how⟩
      · rfl
      · exact absurd ⟨h.has_iff.mpr hov, h.has_iff.mpr how⟩ hold

/-- An operation that keeps the records and adds only empty ones inserts nothing. -/
theorem holds_extends (h : Follows ledger past) (valid : Valid past)
    (kept : Extends ledger' ledger) (hop : ∀ v use, op ≠ .insert v use)
    (old : ∀ v, ledger.Has v → ledger'.usage v = ledger.usage v)
    (fresh : ∀ v, ledger'.Has v → ¬ ledger.Has v → ledger'.usage v = .empty) (v : VarId)
    (hv : ledger'.Has v) (use : Use) :
    (ledger'.usage v).Holds use ↔
      ∃ w, ledger'.Has w ∧ ledger'.root v = ledger'.root w ∧ .insert w use ∈ op :: past := by
  have issued : ∀ w, .insert w use ∈ op :: past → .insert w use ∈ past ∧ ledger.Has w := by
    intro w hm
    have hm : .insert w use ∈ past := by simpa [Ne.symm (hop w use)] using hm
    exact ⟨hm, h.has_iff.mpr (valid.insert_issued hm)⟩
  by_cases hov : ledger.Has v
  · rw [old v hov, h.holds v hov, kept.root_eq h.forest hov]
    constructor
    · intro hheld
      obtain ⟨w, hw, he, hm⟩ := hheld
      exact ⟨w, kept.has hw, he.trans (kept.root_eq h.forest hw).symm, List.mem_cons_of_mem _ hm⟩
    · intro hheld
      obtain ⟨w, _, he, hm⟩ := hheld
      obtain ⟨hm, hw⟩ := issued w hm
      exact ⟨w, hw, he.trans (kept.root_eq h.forest hw), hm⟩
  · rw [fresh v hv hov, kept.root_fresh h.forest hv hov]
    refine ⟨fun hu => absurd hu (Usage.not_holds_empty use), ?_⟩
    intro hheld
    obtain ⟨w, _, he, hm⟩ := hheld
    obtain ⟨_, hw⟩ := issued w hm
    rw [kept.root_eq h.forest hw] at he
    exact absurd (he ▸ h.forest.root_here hw) hov

end Extension

/-- Inserting a use adds it to the record of the variable's group. -/
theorem insert (h : Follows ledger past) (valid : Valid past) {v : VarId} (hv : ledger.Has v)
    (use : Use) : Follows (ledger.record (·.add use) v) (.insert v use :: past) := by
  have kept : Extends (ledger.record (·.add use) v) ledger := record_extends _ v
  have has : ∀ u, (ledger.record (·.add use) v).Has u ↔ ledger.Has u := by
    intro u
    rw [Has, Has, size_record]
  have root := fun u (hu : ledger.Has u) => kept.root_eq h.forest hu
  refine ⟨kept.forest h.forest, (size_record _ _).trans h.size, ?_, ?_,
    h.connected_extends valid kept (by simp), ?_, ?_,
    ascending_record (fun _ hu => hu.add use) h.ascending v⟩
  · intro w hw
    rw [(record_frame _ v w).1]
    exact h.object w ((has w).mp hw)
  · intro w hw
    rw [(record_frame _ v w).2]
    exact h.active w ((has w).mp hw)
  · intro u hu other
    rw [has] at hu
    have inserted : (∃ w, (ledger.record (·.add use) v).Has w ∧
        (ledger.record (·.add use) v).root u = (ledger.record (·.add use) v).root w ∧
        .insert w other ∈ .insert v use :: past) ↔
        (ledger.root u = ledger.root v ∧ other = use) ∨ (ledger.usage u).Holds other := by
      rw [h.holds u hu]
      constructor
      · intro hheld
        obtain ⟨w, hw, he, hm⟩ := hheld
        rw [has] at hw
        rw [root u hu, root w hw] at he
        rcases List.mem_cons.mp hm with hi | hm
        · cases hi
          exact .inl ⟨he, rfl⟩
        · exact .inr ⟨w, hw, he, hm⟩
      · intro hheld
        rcases hheld with ⟨he, rfl⟩ | ⟨w, hw, he, hm⟩
        · exact ⟨v, (has v).mpr hv, by rw [root u hu, root v hv, he], List.mem_cons_self⟩
        · exact ⟨w, (has w).mpr hw, by rw [root u hu, root w hw, he], List.mem_cons_of_mem _ hm⟩
    rw [inserted, usage_record h.forest _ hv hu]
    split
    · rename_i he
      simp [Usage.holds_add, he]
    · rename_i he
      simp [he]
  · intro w hw hmerged
    rw [has] at hw
    rw [kept.same w hw] at hmerged
    have hne : ¬ (w.index = (ledger.root v).index ∧ w.index < ledger.entries.size) := by
      rintro ⟨hi, _⟩
      obtain rfl : w = ledger.root v := congrArg VarId.mk hi
      exact hmerged (h.forest.root_keeps hv)
    rw [Ledger.record, variableAt_modify, if_neg hne]
    exact h.emptied w hw hmerged

theorem untrack (h : Follows ledger past) (valid : Valid past) (object : ObjectId) :
    Follows (ledger.untrack object) (.untrack object :: past) := by
  have kept : Extends (ledger.untrack object) ledger := untrack_extends object
  have has : ∀ u, (ledger.untrack object).Has u → ledger.Has u := by
    intro u hu
    rwa [Has, size_untrack] at hu
  refine ⟨kept.forest h.forest, (size_untrack object).trans h.size, ?_, ?_,
    h.connected_extends valid kept (by simp),
    h.holds_extends valid kept (by simp) (fun v hv => usage_untrack h.forest object hv)
      (fun v hv hn => absurd (has v hv) hn), ?_, ?_⟩
  · intro v hv
    rw [(untrack_frame object v).1]
    exact h.object v (has v hv)
  · intro v hv
    rw [variableAt_untrack]
    split
    · rename_i hl
      obtain ⟨hn, _⟩ := h.lookup_iff.mp hl
      simp only [Bool.false_eq_true, false_iff]
      intro hcurrent
      obtain ⟨other, hother, ht⟩ := hcurrent
      simp [tracks, hn.object_eq hother] at ht
    · rename_i hl
      rw [h.active v (has v hv)]
      constructor
      · intro hcurrent
        obtain ⟨other, hn, ht⟩ := hcurrent
        have hne : object ≠ other := by
          rintro rfl
          exact hl (h.lookup_iff.mpr ⟨hn, ht⟩)
        exact ⟨other, hn, by simp [tracks, hne, ht]⟩
      · intro hcurrent
        obtain ⟨other, hn, ht⟩ := hcurrent
        simp only [tracks, Bool.and_eq_true] at ht
        exact ⟨other, hn, ht.2⟩
  · intro v hv hmerged
    rw [kept.same v (has v hv)] at hmerged
    rw [(untrack_frame object v).2]
    exact h.emptied v (has v hv) hmerged
  · intro v
    rw [(untrack_frame object v).2]
    exact h.ascending v

/-- An object that is tracked already is tracked on by the variable it has. -/
theorem track_again (h : Follows ledger past) {object : ObjectId}
    (ht : tracks past object = true) : Follows ledger (.track object :: past) := by
  have issued : History.issued (.track object :: past) = History.issued past := by
    simp [History.issued, ht]
  have tracked : tracks (.track object :: past) = tracks past := by
    funext other
    by_cases he : object = other
    · simp [tracks, ← he, ht]
    · simp [tracks, he]
  refine ⟨h.forest, by rw [issued]; exact h.size, by rw [issued]; exact h.object, ?_, ?_, ?_,
    h.emptied, h.ascending⟩
  · intro v hv
    simp only [Current, Newest, issued, tracked]
    exact h.active v hv
  · intro v w hv hw
    rw [connected_cons (by simp)]
    exact h.connected v w hv hw
  · intro v hv use
    simpa using h.holds v hv use

/-- Any other object gets a variable of its own, with nothing inserted for it yet. -/
theorem track_fresh (h : Follows ledger past) (valid : Valid past) {object : ObjectId}
    (ht : tracks past object = false) : Follows (ledger.track object) (.track object :: past) := by
  have hl := h.lookup_none_iff.mpr ht
  have kept : Extends (ledger.track object) ledger := track_extends object
  have issued : History.issued (.track object :: past) = History.issued past ++ [object] := by
    simp [History.issued, ht]
  have size : (ledger.track object).entries.size = ledger.entries.size + 1 := by
    simp [track_of_lookup_none hl]
  have entry : ∀ v, (ledger.track object).variableAt v =
      if v.index = ledger.entries.size then ⟨object, true, ⟨ledger.entries.size⟩, .empty⟩
      else ledger.variableAt v := by
    intro v
    rw [track_of_lookup_none hl, variableAt_push]
  have older : ∀ v, (ledger.track object).Has v → v.index ≠ ledger.entries.size →
      ledger.Has v := by
    intro v hv hne
    rw [Has, size] at hv
    exact Nat.lt_of_le_of_ne (Nat.le_of_lt_succ hv) hne
  refine ⟨kept.forest h.forest, by rw [size, issued]; simp [h.size], ?_, ?_,
    h.connected_extends valid kept (by simp),
    h.holds_extends valid kept (by simp) (fun v hv => (usage_track h.forest object).1 hv)
      (fun v hv hn => (usage_track h.forest object).2 hv hn), ?_, ?_⟩
  · intro v hv
    rw [entry, issued]
    split
    · rename_i he
      rw [he, h.size]
      simp
    · rename_i hne
      have hov := older v hv hne
      rw [List.getElem?_append_left (h.has_iff.mp hov)]
      exact h.object v hov
  · intro v hv
    rw [entry]
    split
    · rename_i he
      have hv' : v = ⟨(History.issued past).length⟩ := congrArg VarId.mk (he.trans h.size)
      simp only [true_iff]
      exact ⟨object, hv' ▸ newest_fresh ht, by simp [tracks]⟩
    · rename_i hne
      have hov := older v hv hne
      rw [h.active v hov]
      constructor
      · intro hcurrent
        obtain ⟨other, hn, hto⟩ := hcurrent
        have hne : other ≠ object := by
          rintro rfl
          simp [ht] at hto
        exact ⟨other, (newest_track ht (h.has_iff.mp hov)).mpr ⟨hn, hne⟩, by simp [tracks, hto]⟩
      · intro hcurrent
        obtain ⟨other, hn, hto⟩ := hcurrent
        obtain ⟨hn, hne⟩ := (newest_track ht (h.has_iff.mp hov)).mp hn
        exact ⟨other, hn, by simpa [tracks, Ne.symm hne] using hto⟩
  · intro v hv hmerged
    have hov : ledger.Has v := by
      by_contra hov
      exact hmerged (kept.fresh v hv hov)
    rw [kept.same v hov] at hmerged
    rw [entry, if_neg (Nat.ne_of_lt hov)]
    exact h.emptied v hov hmerged
  · intro v
    rw [entry]
    split
    · exact ⟨.nil, .nil⟩
    · exact h.ascending v

theorem track (h : Follows ledger past) (valid : Valid past) (object : ObjectId) :
    Follows (ledger.track object) (.track object :: past) := by
  cases hl : ledger.lookup object with
  | some v =>
    rw [track_of_lookup_some hl]
    exact h.track_again (h.lookup_iff.mp hl).2
  | none => exact h.track_fresh valid (h.lookup_none_iff.mp hl)

end Follows

theorem replay_follows {history : History} (valid : Valid history) :
    Follows (replay history) history := by
  induction history with
  | nil => exact .empty
  | cons op past ih =>
    have h := ih valid.2
    have given : ∀ v ∈ op.arguments, (replay past).Has v :=
      fun v hv => h.has_iff.mpr (valid.1 v hv)
    cases op with
    | track object => exact h.track valid.2 object
    | untrack object => exact h.untrack valid.2 object
    | share a b =>
      exact h.share valid.2 (given a (by simp [Operation.arguments]))
        (given b (by simp [Operation.arguments]))
    | insert v use => exact h.insert valid.2 (given v (by simp [Operation.arguments])) use

theorem mem_active {v : VarId} {ledger : Ledger} :
    v ∈ ledger.active ↔ ledger.Has v ∧ (ledger.variableAt v).active = true := by
  simp only [active, List.mem_filter, List.mem_map, List.mem_range]
  refine and_congr_left' ⟨?_, fun hv => ⟨v.index, hv, rfl⟩⟩
  intro h
  obtain ⟨i, hi, rfl⟩ := h
  exact hi

theorem active_ascending (ledger : Ledger) : ledger.active.Pairwise (·.index < ·.index) := by
  refine List.Pairwise.filter _ (List.pairwise_map.mpr ?_)
  exact List.pairwise_lt_range

theorem active_nodup (ledger : Ledger) : ledger.active.Nodup := by
  refine ledger.active_ascending.imp ?_
  rintro v _ hlt rfl
  exact Nat.lt_irrefl _ hlt

namespace Follows

variable {ledger : Ledger} {history : History}

theorem record (h : Follows ledger history) (valid : Valid history) {v : VarId}
    (hv : Issued history v) (use : Use) : (ledger.usage v).Holds use ↔
      ∃ w, Connected history v w ∧ .insert w use ∈ history := by
  have hv := h.has_iff.mpr hv
  rw [h.holds v hv]
  constructor
  · intro hheld
    obtain ⟨w, hw, he, hm⟩ := hheld
    exact ⟨w, (h.connected v w hv hw).mp he, hm⟩
  · intro hheld
    obtain ⟨w, hc, hm⟩ := hheld
    have hw := h.has_iff.mpr (valid.insert_issued hm)
    exact ⟨w, hw, (h.connected v w hv hw).mpr hc, hm⟩

/-- What is looked up is a matter of what was issued and is tracked. -/
theorem lookup_congr {ledger' : Ledger} {history' : History} {object : ObjectId}
    (h : Follows ledger history) (h' : Follows ledger' history')
    (same : issued history' = issued history)
    (tracked : tracks history' object = tracks history object) :
    ledger'.lookup object = ledger.lookup object := by
  refine Option.ext fun v => ?_
  simp only [h.lookup_iff, h'.lookup_iff, Newest, same, tracked]

theorem lookup_isSome (h : Follows ledger history) (object : ObjectId) :
    (ledger.lookup object).isSome = tracks history object := by
  rw [Bool.eq_iff_iff, ← Bool.not_eq_false (tracks history object), ← h.lookup_none_iff,
    Option.isSome_iff_ne_none]

theorem lookup_untrack {object : ObjectId} (h : Follows ledger history)
    (h' : Follows (ledger.untrack object) (.untrack object :: history)) (other : ObjectId) :
    (ledger.untrack object).lookup other =
      if other = object then none else ledger.lookup other := by
  by_cases he : other = object
  · rw [if_pos he]
    exact h'.lookup_none_iff.mpr (by simp [tracks, he])
  · rw [if_neg he]
    exact h.lookup_congr h' rfl (by simp [tracks, Ne.symm he])

theorem mem_active_iff (h : Follows ledger history) {v : VarId} :
    v ∈ ledger.active ↔ Current history v := by
  rw [mem_active]
  constructor
  · intro hactive
    obtain ⟨hv, ha⟩ := hactive
    exact (h.active v hv).mp ha
  · intro hc
    obtain ⟨_, hn, _⟩ := hc
    have hv := h.has_iff.mpr hn.issued
    exact ⟨hv, (h.active v hv).mpr ⟨_, hn, ‹_›⟩⟩

/-- An active variable is the one that tracks its object. -/
theorem lookup_object (h : Follows ledger history) {v : VarId} (hv : v ∈ ledger.active) :
    ledger.lookup (ledger.variableAt v).object = some v := by
  obtain ⟨object, newest, tracked⟩ := h.mem_active_iff.mp hv
  obtain rfl := Option.some.inj (newest.1.symm.trans (h.object v (mem_active.mp hv).1))
  exact h.lookup_iff.mpr ⟨newest, tracked⟩

theorem size_eq (h : Follows ledger history) :
    ledger.size = {v | Current history v}.ncard := by
  have members : {v | Current history v} = ledger.active.toFinset := by
    ext v
    simp [h.mem_active_iff]
  rw [members, Set.ncard_coe_finset, List.toFinset_card_of_nodup ledger.active_nodup, Ledger.size]

/-- Each record is counted at its keeper, which stands for the variables connected to it. -/
theorem recordCount_eq (h : Follows ledger history) : ledger.recordCount =
    (Set.image (Quotient.mk history.classes) {v | Current history v}).ncard := by
  have here : ∀ v, Current history v → ledger.Has v := by
    rintro v ⟨_, hn, _⟩
    exact h.has_iff.mpr hn.issued
  have keeper : ∀ v, Current history v →
      Quotient.mk history.classes (ledger.root v) = Quotient.mk history.classes v := by
    intro v hv
    have hr := h.forest.root_here (here v hv)
    refine Quotient.sound ((h.connected _ _ hr (here v hv)).mp ?_)
    exact h.forest.root_of_keeper hr (h.forest.root_keeps (here v hv))
  have apart : Set.InjOn (Quotient.mk history.classes)
      (Set.image ledger.root {v | Current history v}) := by
    rintro _ ⟨v, hv, rfl⟩ _ ⟨w, hw, rfl⟩ he
    rw [keeper v hv, keeper w hw] at he
    exact (h.connected v w (here v hv) (here w hw)).mpr (Quotient.exact he)
  have roots : {x | x ∈ ledger.active.map ledger.root} =
      Set.image ledger.root {v | Current history v} := by
    ext x
    simp [h.mem_active_iff]
  rw [recordCount, ncard_eraseDups, roots, ← apart.ncard_image, Set.image_image]
  exact congrArg Set.ncard (Set.image_congr keeper)

end Follows

end Ledger

end LeastContext

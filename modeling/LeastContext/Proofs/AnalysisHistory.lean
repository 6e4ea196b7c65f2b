import LeastContext.Analysis.Collection
import LeastContext.Proofs.LedgerRuns
import LeastContext.Proofs.UseSites

namespace LeastContext

/-- A history is valid and leads to a ledger. -/
structure History.LeadsTo (history : History) (ledger : Ledger) : Prop where
  valid : history.Valid
  replays : Ledger.replay history = ledger

namespace History.LeadsTo

variable {history : History} {ledger : Ledger}

theorem empty : LeadsTo [] .empty :=
  ⟨trivial, rfl⟩

theorem follows (h : history.LeadsTo ledger) : ledger.Follows history :=
  h.replays ▸ Ledger.replay_follows h.valid

theorem perform (h : history.LeadsTo ledger) (op : Operation)
    (given : ∀ v ∈ op.arguments, ledger.Has v) :
    LeadsTo (op :: history) (ledger.perform op) := by
  refine ⟨⟨?_, h.valid⟩, congrArg (Ledger.perform · op) h.replays⟩
  intro v hv
  exact h.follows.has_iff.mp (given v hv)

end History.LeadsTo

open History

namespace Program

variable {p : Program}

theorem track_leadsTo {history : History} {ledger : Ledger} (h : history.LeadsTo ledger)
    (objects : List ObjectId) :
    History.LeadsTo ((objects.map .track).reverse ++ history)
      (objects.foldl Ledger.track ledger) := by
  induction objects generalizing history ledger with
  | nil => exact h
  | cons object objects ih =>
    have hone : LeadsTo (.track object :: history) (ledger.track object) :=
      h.perform (.track object) (by simp [Operation.arguments])
    simpa using ih hone

theorem mem_tracks {objects : List ObjectId} {op : Operation} :
    op ∈ (objects.map Operation.track).reverse ↔ ∃ object ∈ objects, op = .track object := by
  simp only [List.mem_reverse, List.mem_map, @eq_comm _ op]

/-- Collecting tracks objects and does nothing else. -/
theorem collect_leadsTo (p : Program) (settings : Settings) : History.LeadsTo
    ((p.declaredObjects.filter (p.isTrackable settings)).map .track).reverse
    (p.collect settings) := by
  have h := track_leadsTo .empty (p.declaredObjects.filter (p.isTrackable settings))
  rwa [List.append_nil, ← collect_def] at h

end Program

namespace Marking

theorem apply_untracked {marking : Marking} {object : ObjectId}
    (h : marking.ledger.lookup object = none) (use : Use) :
    marking.apply (use.mark object) = marking := by
  cases use <;> simp [Use.mark, apply, h]

theorem apply_tracked {marking : Marking} {object : ObjectId} {v : VarId}
    (h : marking.ledger.lookup object = some v) (use : Use) :
    (marking.apply (use.mark object)).ledger = marking.ledger.record (·.add use) v := by
  cases use <;> simp [Use.mark, apply, h, Usage.add]

/-- A use of an object in a list of marks that comes before the object is dropped. -/
def Counts (marks : List Mark) (object : ObjectId) (use : Use) : Prop :=
  ∃ before after, marks = before ++ use.mark object :: after ∧ .dropped object ∉ before

theorem counts_cons {mark : Mark} {marks : List Mark} {object : ObjectId} {use : Use} :
    Counts (mark :: marks) object use ↔
      mark = use.mark object ∨ mark ≠ .dropped object ∧ Counts marks object use := by
  constructor
  · intro h
    obtain ⟨before, after, he, hn⟩ := h
    cases before with
    | nil =>
      cases he
      exact .inl rfl
    | cons first before =>
      cases he
      simp only [List.mem_cons, not_or] at hn
      exact .inr ⟨Ne.symm hn.1, before, after, rfl, hn.2⟩
  · intro h
    rcases h with rfl | ⟨hne, before, after, rfl, hn⟩
    · exact ⟨[], marks, rfl, by simp⟩
    · exact ⟨mark :: before, after, rfl, by simp [Ne.symm hne, hn]⟩

theorem counts_append {marks more : List Mark} {object : ObjectId} {use : Use} :
    Counts (marks ++ more) object use ↔
      Counts marks object use ∨ .dropped object ∉ marks ∧ Counts more object use := by
  induction marks with
  | nil =>
    simp [Counts]
  | cons mark marks ih =>
    rw [List.cons_append, counts_cons, counts_cons, ih, List.mem_cons, not_or]
    tauto

/-- The operations that a list of marks comes to, on a ledger. -/
structure ComesTo (marks : List Mark) (ledger : Ledger) (ops : History) : Prop where
  kinds : ∀ op ∈ ops, (∃ object, op = .untrack object) ∨ ∃ v use, op = .insert v use
  inserted : ∀ v use, .insert v use ∈ ops ↔
    ∃ object, ledger.lookup object = some v ∧ Counts marks object use
  untracked : ∀ object, .untrack object ∈ ops ↔ .dropped object ∈ marks

namespace ComesTo

variable {marks : List Mark} {ledger ledger' : Ledger} {ops : History} {object : ObjectId}

theorem nil : ComesTo [] ledger [] where
  kinds := by simp
  inserted := by simp [Counts]
  untracked := by simp

/-- A mark of an object that is not tracked is passed over. -/
theorem skip (h : ComesTo marks ledger ops) (hl : ledger.lookup object = none) (use : Use) :
    ComesTo (use.mark object :: marks) ledger ops where
  kinds := h.kinds
  inserted := by
    intro v use'
    rw [h.inserted]
    constructor
    · intro hinserted
      obtain ⟨other, ho, hc⟩ := hinserted
      exact ⟨other, ho, counts_cons.mpr (.inr ⟨Use.mark_ne_dropped, hc⟩)⟩
    · intro hinserted
      obtain ⟨other, ho, hc⟩ := hinserted
      rcases counts_cons.mp hc with he | ⟨_, hc⟩
      · obtain ⟨rfl, rfl⟩ := Use.mark_inj he
        rw [hl] at ho
        cases ho
      · exact ⟨other, ho, hc⟩
  untracked := by
    intro other
    rw [h.untracked, List.mem_cons, or_iff_right Use.mark_ne_dropped.symm]

theorem insert (h : ComesTo marks ledger' ops) {v : VarId} (hl : ledger.lookup object = some v)
    (same : ∀ other w, ledger'.lookup other = some w ↔ ledger.lookup other = some w) (use : Use) :
    ComesTo (use.mark object :: marks) ledger (ops ++ [.insert v use]) where
  kinds := by
    intro op hop
    rcases List.mem_append.mp hop with hop | hop
    · exact h.kinds op hop
    · exact .inr ⟨v, use, List.mem_singleton.mp hop⟩
  inserted := by
    intro w use'
    rw [List.mem_append, h.inserted, List.mem_singleton]
    constructor
    · intro hinserted
      rcases hinserted with ⟨other, ho, hc⟩ | he
      · exact ⟨other, (same other w).mp ho, counts_cons.mpr (.inr ⟨Use.mark_ne_dropped, hc⟩)⟩
      · cases he
        exact ⟨object, hl, counts_cons.mpr (.inl rfl)⟩
    · intro hinserted
      obtain ⟨other, ho, hc⟩ := hinserted
      rcases counts_cons.mp hc with he | ⟨_, hc⟩
      · obtain ⟨rfl, rfl⟩ := Use.mark_inj he
        cases hl.symm.trans ho
        exact .inr rfl
      · exact .inl ⟨other, (same other w).mpr ho, hc⟩
  untracked := by
    intro other
    rw [List.mem_append, h.untracked, List.mem_cons (b := Use.mark object use),
      or_iff_right Use.mark_ne_dropped.symm]
    simp

theorem drop (h : ComesTo marks ledger' ops)
    (rest : ∀ other w, ledger'.lookup other = some w ↔
      ledger.lookup other = some w ∧ object ≠ other) :
    ComesTo (.dropped object :: marks) ledger (ops ++ [.untrack object]) where
  kinds := by
    intro op hop
    rcases List.mem_append.mp hop with hop | hop
    · exact h.kinds op hop
    · exact .inl ⟨object, List.mem_singleton.mp hop⟩
  inserted := by
    intro w use
    rw [List.mem_append, h.inserted]
    constructor
    · intro hinserted
      rcases hinserted with ⟨other, ho, hc⟩ | he
      · obtain ⟨ho, hne⟩ := (rest other w).mp ho
        exact ⟨other, ho, counts_cons.mpr (.inr ⟨by simpa using hne, hc⟩)⟩
      · simp at he
    · intro hinserted
      obtain ⟨other, ho, hc⟩ := hinserted
      rcases counts_cons.mp hc with he | ⟨hne, hc⟩
      · exact absurd he.symm Use.mark_ne_dropped
      · exact .inl ⟨other, (rest other w).mpr ⟨ho, by simpa using hne⟩, hc⟩
  untracked := by
    intro other
    rw [List.mem_append, h.untracked, List.mem_cons, or_comm]
    simp

theorem not_track (h : ComesTo marks ledger ops) : ∀ op ∈ ops, ∀ other, op ≠ .track other := by
  rintro _ hop other rfl
  rcases h.kinds _ hop with ⟨_, he⟩ | ⟨_, _, he⟩ <;> cases he

theorem not_share (h : ComesTo marks ledger ops) : ∀ op ∈ ops, ∀ a b, op ≠ .share a b := by
  rintro _ hop a b rfl
  rcases h.kinds _ hop with ⟨_, he⟩ | ⟨_, _, he⟩ <;> cases he

end ComesTo

theorem mark_cases (mark : Mark) :
    (∃ object use, mark = Use.mark object use) ∨ ∃ object, mark = .dropped object := by
  cases mark with
  | interface object type => exact .inl ⟨object, .interface type, rfl⟩
  | method object name => exact .inl ⟨object, .method name, rfl⟩
  | cached object => exact .inl ⟨object, .cached, rfl⟩
  | dropped object => exact .inr ⟨object, rfl⟩

/-- Applying marks inserts the uses that count and drops what is marked so. -/
theorem marks_leadTo {history : History} {marking : Marking}
    (h : history.LeadsTo marking.ledger) (marks : List Mark) :
    ∃ ops, ComesTo marks marking.ledger ops ∧
      History.LeadsTo (ops ++ history) (marks.foldl apply marking).ledger := by
  induction marks generalizing history marking with
  | nil => exact ⟨[], .nil, h⟩
  | cons mark marks ih =>
    rcases mark_cases mark with ⟨object, use, rfl⟩ | ⟨object, rfl⟩
    · cases hl : marking.ledger.lookup object with
      | none =>
        obtain ⟨ops, hops, hleads⟩ := ih h
        rw [List.foldl_cons, apply_untracked hl]
        exact ⟨ops, hops.skip hl use, hleads⟩
      | some v =>
        have hin : ∀ w ∈ (Operation.insert v use).arguments, marking.ledger.Has w := by
          intro w hw
          rw [List.mem_singleton.mp hw]
          exact (Ledger.lookup_some hl).1
        have hone :
            LeadsTo (.insert v use :: history) (marking.apply (use.mark object)).ledger := by
          rw [apply_tracked hl]
          exact h.perform (.insert v use) hin
        obtain ⟨ops, hops, hleads⟩ := ih hone
        refine ⟨ops ++ [.insert v use], hops.insert hl ?_ use, by simpa using hleads⟩
        intro other w
        rw [hone.follows.lookup_iff, h.follows.lookup_iff]
        rfl
    · have hone : LeadsTo (.untrack object :: history) (marking.apply (.dropped object)).ledger :=
        h.perform (.untrack object) (by simp [Operation.arguments])
      obtain ⟨ops, hops, hleads⟩ := ih hone
      refine ⟨ops ++ [.untrack object], hops.drop ?_, by simpa using hleads⟩
      intro other w
      rw [hone.follows.lookup_iff, h.follows.lookup_iff]
      simp only [Newest, History.issued, tracks, Bool.and_eq_true, decide_eq_true_eq]
      tauto

end Marking

end LeastContext

import LeastContext.Proofs.AnalysisOutcome
import LeastContext.Proofs.SiblingPools
import LeastContext.Proofs.Strict.Marking

namespace LeastContext

def Node.expr? : Node → Option Expr
  | .expr e => some e
  | _ => none

namespace Program

open History

variable {p : Program} {settings : Settings}

/-- The expressions of a program come in the order in which its files are visited. -/
theorem exprs_preorder (p : Program) : ∃ visit : SourceFile → List Node,
    (∀ file ∈ p.files, (Node.file file).Preorder (visit file)) ∧
      p.exprs = (p.files.flatMap visit).filterMap Node.expr? := by
  refine ⟨fun file => (Node.file file).all, fun file _ => Node.all_preorder _, ?_⟩
  rw [List.filterMap_flatMap]
  rfl

/-- The marks of an expression, none if it has a breach. -/
def marksOf (p : Program) (settings : Settings) (e : Expr) : List Mark :=
  match p.marks settings e with
  | .ok marks => marks
  | .error _ => []

theorem markExprs_breach {marking : Marking} {exprs : List Expr} :
    (∃ breach, (p.markExprs settings marking exprs).2 = some breach) ↔
      ∃ e ∈ exprs, p.BreachAt e := by
  induction exprs generalizing marking with
  | nil => simp [markExprs_nil]
  | cons e exprs ih =>
    have hbreach : (∃ breach, p.marks settings e = .error breach) ↔ p.BreachAt e := marks_error
    rw [markExprs_cons]
    cases he : p.marks settings e with
    | error breach =>
      have hb := hbreach.mp ⟨breach, he⟩
      exact ⟨fun _ => ⟨e, List.mem_cons_self, hb⟩, fun _ => ⟨breach, rfl⟩⟩
    | ok marks =>
      have hb : ¬ p.BreachAt e := by
        intro hb
        obtain ⟨breach, hm⟩ := hbreach.mpr hb
        rw [he] at hm
        cases hm
      simp only [List.mem_cons, exists_eq_or_imp, hb, false_or]
      exact ih

/-- Without a breach, marking applies the marks of all expressions in their order. -/
theorem markExprs_marks {marking : Marking} {exprs : List Expr}
    (h : (p.markExprs settings marking exprs).2 = none) :
    (∀ e ∈ exprs, p.marks settings e = .ok (p.marksOf settings e)) ∧
      (p.markExprs settings marking exprs).1 =
        (exprs.flatMap (p.marksOf settings)).foldl Marking.apply marking := by
  induction exprs generalizing marking with
  | nil => exact ⟨by simp, rfl⟩
  | cons e exprs ih =>
    rw [markExprs_cons] at h ⊢
    cases he : p.marks settings e with
    | error breach =>
      rw [he] at h
      cases h
    | ok marks =>
      rw [he] at h
      obtain ⟨hrest, hfold⟩ := ih h
      have hmarks : p.marksOf settings e = marks := by simp [marksOf, he]
      refine ⟨?_, ?_⟩
      · intro other ho
        rcases List.mem_cons.mp ho with rfl | ho
        · rw [he, hmarks]
        · exact hrest other ho
      · rw [List.flatMap_cons, List.foldl_append, hmarks]
        exact hfold

theorem counts_marks {e : Expr} {marks : List Mark} (h : p.marks settings e = .ok marks)
    {object : ObjectId} {use : Use} :
    Marking.Counts marks object use ↔ p.UsedAt settings e object use := by
  rw [← mark_mem_marks h]
  constructor
  · intro hcounts
    obtain ⟨before, after, rfl, _⟩ := hcounts
    simp
  · intro hm
    obtain ⟨uses, drops, rfl, huses, hdrops⟩ := marks_order h
    have hin : use.mark object ∈ uses := by
      rcases List.mem_append.mp hm with hm | hm
      · exact hm
      · exact absurd hm (hdrops object use)
    obtain ⟨before, after, rfl⟩ := List.append_of_mem hin
    refine ⟨before, after ++ drops, by simp, ?_⟩
    intro hb
    exact huses object (List.mem_append_left _ hb)

/-- A use counts if its expression comes before those that drop the object. -/
theorem counts_exprs {exprs : List Expr}
    (ok : ∀ e ∈ exprs, p.marks settings e = .ok (p.marksOf settings e))
    {object : ObjectId} {use : Use} :
    Marking.Counts (exprs.flatMap (p.marksOf settings)) object use ↔
      ∃ before e after, exprs = before ++ e :: after ∧ p.UsedAt settings e object use ∧
        ∀ d ∈ before, ¬ p.DropsAt settings d object := by
  induction exprs with
  | nil => simp [Marking.Counts]
  | cons e exprs ih =>
    have he := ok e List.mem_cons_self
    rw [List.flatMap_cons, Marking.counts_append, counts_marks he, dropped_mem_marks he,
      ih fun other ho => ok other (List.mem_cons_of_mem _ ho)]
    constructor
    · intro h
      rcases h with hused | ⟨hkept, before, f, after, rfl, hused, hb⟩
      · exact ⟨[], e, exprs, rfl, hused, by simp⟩
      · exact ⟨e :: before, f, after, rfl, hused, by simpa [hkept] using hb⟩
    · intro h
      obtain ⟨before, f, after, hsplit, hused, hb⟩ := h
      cases before with
      | nil =>
        cases hsplit
        exact .inl hused
      | cons first before =>
        cases hsplit
        refine .inr ⟨hb _ List.mem_cons_self, before, f, after, rfl, hused, ?_⟩
        intro d hd
        exact hb d (List.mem_cons_of_mem _ hd)

section Marked

variable {history : History} {ledger : Ledger}

/-- Marking without a breach performs what the marks of all expressions come to. -/
theorem markUses_leadsTo (h : history.LeadsTo ledger)
    (unbroken : (p.markUses settings ledger).2 = none) :
    ∃ ops, Marking.ComesTo (p.exprs.flatMap (p.marksOf settings)) ledger ops ∧
      History.LeadsTo (ops ++ history) (p.markUses settings ledger).1.ledger := by
  have hfold := (markExprs_marks unbroken).2
  have hstart : history.LeadsTo (Marking.mk ledger 0).ledger := h
  rw [markUses_def, hfold]
  exact Marking.marks_leadTo hstart _

/-- An analysis without a breach is a history of its ledger. -/
theorem markedLedger_leadsTo
    (unbroken : (p.markUses settings (p.pool (p.collect settings)).1).2 = none) :
    ∃ past : History, past.LeadsTo (p.markedLedger settings) := by
  obtain ⟨_, _, hleads⟩ := p.collected_leadsTo settings
  obtain ⟨_, _, hmarked⟩ := markUses_leadsTo hleads unbroken
  exact ⟨_, hmarked⟩

theorem markUses_counts (unbroken : (p.markUses settings ledger).2 = none)
    {object : ObjectId} {use : Use} :
    Marking.Counts (p.exprs.flatMap (p.marksOf settings)) object use ↔
      ∃ before e after, p.exprs = before ++ e :: after ∧ p.UsedAt settings e object use ∧
        ∀ d ∈ before, ¬ p.DropsAt settings d object :=
  counts_exprs (markExprs_marks unbroken).1

theorem markUses_drops (unbroken : (p.markUses settings ledger).2 = none) {object : ObjectId} :
    .dropped object ∈ p.exprs.flatMap (p.marksOf settings) ↔
      ∃ e, p.Contains (.expr e) ∧ p.DropsAt settings e object := by
  have ok := (markExprs_marks unbroken).1
  rw [List.mem_flatMap]
  constructor
  · intro h
    obtain ⟨e, he, hm⟩ := h
    exact ⟨e, mem_exprs.mp he, (dropped_mem_marks (ok e he)).mp hm⟩
  · intro h
    obtain ⟨e, he, hd⟩ := h
    have he := mem_exprs.mpr he
    exact ⟨e, he, (dropped_mem_marks (ok e he)).mpr hd⟩

end Marked

/-- What marking comes to on a ledger without uses, said without marking. -/
structure MarksExactly (p : Program) (settings : Settings) (ledger : Ledger) : Prop where
  visited : ∀ e, e ∈ p.exprs ↔ p.Contains (.expr e)
  order : ∃ visit : SourceFile → List Node,
    (∀ file ∈ p.files, (Node.file file).Preorder (visit file)) ∧
      p.exprs = (p.files.flatMap visit).filterMap Node.expr?
  breach : (∃ breach, (p.markUses settings ledger).2 = some breach) ↔
    ∃ e, p.Contains (.expr e) ∧ p.BreachAt e
  record : (p.markUses settings ledger).2 = none →
    ∀ v ∈ (p.markUses settings ledger).1.ledger.active, ∀ use,
      ((p.markUses settings ledger).1.ledger.usage v).Holds use ↔
        ∃ before e after object w, p.exprs = before ++ e :: after ∧
          p.UsedAt settings e object use ∧ (∀ d ∈ before, ¬ p.DropsAt settings d object) ∧
          ledger.lookup object = some w ∧ ledger.root w = ledger.root v
  active : (p.markUses settings ledger).2 = none →
    ∀ v, v ∈ (p.markUses settings ledger).1.ledger.active ↔ v ∈ ledger.active ∧
      ∀ e, p.Contains (.expr e) → ¬ p.DropsAt settings e (ledger.variableAt v).object

section Run

variable {history : History} {ledger : Ledger}

theorem marked_record (h : history.LeadsTo ledger) (unused : ∀ v use, .insert v use ∉ history)
    (unbroken : (p.markUses settings ledger).2 = none) {v : VarId} (hv : Issued history v)
    (use : Use) : ((p.markUses settings ledger).1.ledger.usage v).Holds use ↔
      ∃ before e after object w, p.exprs = before ++ e :: after ∧
        p.UsedAt settings e object use ∧ (∀ d ∈ before, ¬ p.DropsAt settings d object) ∧
        ledger.lookup object = some w ∧ ledger.root w = ledger.root v := by
  obtain ⟨ops, hops, hleads⟩ := markUses_leadsTo h unbroken
  have hv' : Issued (ops ++ history) v := by
    rw [Issued, issued_append hops.not_track]
    exact hv
  have hroot : ∀ w, ledger.Has w →
      (Connected (ops ++ history) v w ↔ ledger.root w = ledger.root v) := by
    intro w hw
    rw [connected_append hops.not_share,
      ← h.follows.connected v w (h.follows.has_iff.mpr hv) hw]
    exact eq_comm
  rw [hleads.follows.record hleads.valid hv']
  constructor
  · intro hheld
    obtain ⟨w, hc, hm⟩ := hheld
    rcases List.mem_append.mp hm with hm | hm
    · obtain ⟨object, hl, hcounts⟩ := (hops.inserted w use).mp hm
      obtain ⟨before, e, after, hsplit, hused, hkept⟩ := (markUses_counts unbroken).mp hcounts
      have hin := (Ledger.lookup_some hl).1
      exact ⟨before, e, after, object, w, hsplit, hused, hkept, hl, (hroot w hin).mp hc⟩
    · exact absurd hm (unused w use)
  · intro hsite
    obtain ⟨before, e, after, object, w, hsplit, hused, hkept, hl, hr⟩ := hsite
    have hin := (Ledger.lookup_some hl).1
    refine ⟨w, (hroot w hin).mpr hr, List.mem_append_left _ ?_⟩
    refine (hops.inserted w use).mpr ⟨object, hl, (markUses_counts unbroken).mpr ?_⟩
    exact ⟨before, e, after, hsplit, hused, hkept⟩

theorem marked_active (h : history.LeadsTo ledger)
    (unbroken : (p.markUses settings ledger).2 = none) (v : VarId) :
    v ∈ (p.markUses settings ledger).1.ledger.active ↔ v ∈ ledger.active ∧
      ∀ e, p.Contains (.expr e) → ¬ p.DropsAt settings e (ledger.variableAt v).object := by
  obtain ⟨ops, hops, hleads⟩ := markUses_leadsTo h unbroken
  have hnewest : ∀ object, Newest (ops ++ history) object v ↔ Newest history object v := by
    intro object
    rw [Newest, Newest, issued_append hops.not_track]
  have hdrops : ∀ object, .untrack object ∉ ops ↔
      ∀ e, p.Contains (.expr e) → ¬ p.DropsAt settings e object := by
    intro object
    rw [hops.untracked, markUses_drops unbroken]
    simp
  have hobject : ∀ object, Newest history object v → (ledger.variableAt v).object = object := by
    intro object hn
    have hv := h.follows.object v (h.follows.has_iff.mpr hn.issued)
    exact Option.some.inj (hv.symm.trans hn.1)
  rw [hleads.follows.mem_active_iff, h.follows.mem_active_iff]
  constructor
  · intro hcurrent
    obtain ⟨object, hn, ht⟩ := hcurrent
    rw [hnewest] at hn
    obtain ⟨ht, hkept⟩ := (tracks_append hops.not_track).mp ht
    refine ⟨⟨object, hn, ht⟩, ?_⟩
    rw [hobject object hn]
    exact (hdrops object).mp hkept
  · intro hcurrent
    obtain ⟨⟨object, hn, ht⟩, hkept⟩ := hcurrent
    rw [hobject object hn] at hkept
    refine ⟨object, (hnewest object).mpr hn, ?_⟩
    exact (tracks_append hops.not_track).mpr ⟨ht, (hdrops object).mpr hkept⟩

end Run

theorem pool_marksExactly (p : Program) (settings : Settings) :
    p.MarksExactly settings (p.pool (p.collect settings)).1 := by
  obtain ⟨history, unused, hleads⟩ := p.collected_leadsTo settings
  refine ⟨fun e => mem_exprs, p.exprs_preorder, ?_, ?_, ?_⟩
  · simp only [markUses_def, markExprs_breach, mem_exprs]
  · intro unbroken v hv
    have hactive := ((marked_active hleads unbroken v).mp hv).1
    have hin := hleads.follows.has_iff.mp (Ledger.mem_active.mp hactive).1
    exact marked_record hleads unused unbroken hin
  · exact marked_active hleads

/-- Marking the ledger of collecting and pooling finds exactly the uses of the program. In a valid
program, once pooling has come to an end, marking does too. -/
theorem marking_finds_exactly_the_uses (p : Program) (settings : Settings) :
    p.MarksExactly settings (p.pool (p.collect settings)).1 ∧
      (p.defect? = none → ∀ ledger joined,
        p.poolM (m := Strict) (p.collect settings) = .ok (ledger, joined) →
          p.markUsesM (m := Strict) settings ledger = .ok (p.markUses settings ledger) ∧
            p.MarksExactly settings ledger) := by
  refine ⟨p.pool_marksExactly settings, ?_⟩
  intro valid ledger joined pooled
  have wf := WellFormed.of_defect? valid
  have hledger : ledger = (p.pool (p.collect settings)).1 :=
    congrArg Prod.fst ((poolM_follows wf (p.collect settings)).eq_of_ok pooled)
  refine ⟨markUsesM_ok wf settings ledger, ?_⟩
  rw [hledger]
  exact p.pool_marksExactly settings

end Program

end LeastContext

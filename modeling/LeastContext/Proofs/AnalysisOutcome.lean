import LeastContext.Analysis.Run

namespace LeastContext.Program

variable {p : Program} {settings : Settings} {includeTests : Bool} {ledger : Ledger} {v : VarId}
  {d : Diagnostic}

theorem mem_report : d ∈ p.report settings includeTests ledger ↔
    ∃ v ∈ ledger.active, p.isInScope settings includeTests ledger v = true ∧
      p.diagnose? ledger v = some d := by
  simp only [report_def, List.mem_mergeSort, List.mem_filterMap, List.mem_filter, and_assoc]

theorem diagnose?_eq_some (h : p.diagnose? ledger v = some d) : ∃ request types,
    p.request? (ledger.variableAt v).object = some request ∧
      (p.problems request (ledger.usage v)).primary = some (d.kind, types) ∧
      d.interfaces = p.nameList (some p.package) types := by
  rw [diagnose?_def, Option.bind_eq_some_iff] at h
  obtain ⟨request, hrequest, hfinding⟩ := h
  obtain ⟨⟨kind, types⟩, hprimary, rfl⟩ := Option.map_eq_some_iff.mp hfinding
  exact ⟨request, types, hrequest, hprimary, rfl⟩

/-- The ledger that the findings are read off. -/
def markedLedger (p : Program) (settings : Settings) : Ledger :=
  (p.markUses settings (p.pool (p.collect settings)).1).1.ledger

/-- What a run without a breach comes to. -/
def outcome (p : Program) (settings : Settings) (includeTests : Bool) : Analysis :=
  .of (p.packageOf p.package).path (p.report settings includeTests (p.markedLedger settings))
    (p.pool (p.collect settings)).2 (p.markUses settings (p.pool (p.collect settings)).1).1

@[simp]
theorem outcome_diagnostics (p : Program) (settings : Settings) (includeTests : Bool) :
    (p.outcome settings includeTests).diagnostics =
      p.report settings includeTests (p.markedLedger settings) :=
  rfl

theorem outcome_stats (p : Program) (settings : Settings) (includeTests : Bool) :
    (p.outcome settings includeTests).stats =
      { tracked := (p.markedLedger settings).size
        sharedRecords := (p.markedLedger settings).recordCount
        unified := (p.pool (p.collect settings)).2
        uses := (p.markUses settings (p.pool (p.collect settings)).1).1.uses
        allUnused := (p.outcome settings includeTests).diagnostics.countP (·.kind = .allUnused)
        unrequested := (p.outcome settings includeTests).diagnostics.countP (·.kind = .unrequested)
        unused := (p.outcome settings includeTests).diagnostics.countP (·.kind = .unused) } :=
  rfl

theorem analyze_of_valid (valid : p.defect? = none) (settings : Settings) (includeTests : Bool) :
    p.analyze settings includeTests = p.analyzeChecked settings includeTests := by
  rw [analyze_def, checked, valid]

/-- A run fails for a defect or a breach, and for nothing else. -/
theorem analyze_eq (p : Program) (settings : Settings) (includeTests : Bool) :
    p.analyze settings includeTests =
      match p.defect?, (p.markUses settings (p.pool (p.collect settings)).1).2 with
      | some defect, _ => .error (.invalidProgram defect.message)
      | none, some breach => .error (.invariant breach.message)
      | none, none => .ok (p.outcome settings includeTests) := by
  cases hdefect : p.defect? with
  | some defect => rw [analyze_def, checked, hdefect]
  | none =>
    rw [analyze_of_valid hdefect, analyzeChecked_def, outcome, markedLedger]
    rcases p.markUses settings (p.pool (p.collect settings)).1 with ⟨marking, broken⟩
    cases broken <;> rfl

theorem analyze_eq_ok {analysis : Analysis} :
    p.analyze settings includeTests = .ok analysis ↔ p.defect? = none ∧
      (p.markUses settings (p.pool (p.collect settings)).1).2 = none ∧
      p.outcome settings includeTests = analysis := by
  rw [analyze_eq]
  cases p.defect? with
  | some defect => simp
  | none => cases (p.markUses settings (p.pool (p.collect settings)).1).2 <;> simp

theorem analyze_eq_error {failure : Failure} :
    p.analyze settings includeTests = .error failure ↔
      (∃ defect, p.defect? = some defect ∧ failure = .invalidProgram defect.message) ∨
      (p.defect? = none ∧ ∃ breach,
        (p.markUses settings (p.pool (p.collect settings)).1).2 = some breach ∧
          failure = .invariant breach.message) := by
  rw [analyze_eq]
  cases p.defect? with
  | some defect => simp [eq_comm]
  | none => cases (p.markUses settings (p.pool (p.collect settings)).1).2 <;> simp [eq_comm]

end LeastContext.Program

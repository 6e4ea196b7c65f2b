import LeastContext.Proofs.AnalysisOutcome
import LeastContext.Proofs.MarkedUses
import LeastContext.Proofs.Strict.Marking
import LeastContext.Proofs.Strict.Report

namespace LeastContext

open Strict

theorem History.track_of_mem_issued {history : History} {object : ObjectId}
    (h : object ∈ History.issued history) : .track object ∈ history := by
  induction history with
  | nil => cases h
  | cons op past ih =>
    cases op with
    | track other =>
      rw [History.issued] at h
      split at h
      · exact List.mem_cons_of_mem _ (ih h)
      · rcases List.mem_append.mp h with h | h
        · exact List.mem_cons_of_mem _ (ih h)
        · rw [List.mem_singleton.mp h]
          exact List.mem_cons_self
    | untrack _ | share _ _ | insert _ _ => exact List.mem_cons_of_mem _ (ih h)

namespace Program

variable {p : Program} {settings : Settings} {includeTests : Bool}

section WellFormed

variable (wf : p.WellFormed)
include wf

theorem binds_resolves {sig : Signature} {spread : Bool} {i : Nat} {id type : TypeId}
    (hform : p.form id = .signature sig) (h : p.Binds sig spread i type) :
    p.resolves (.type type) := by
  cases h with
  | param _ hparam => exact part_resolves wf hform (.param (List.mem_of_getElem? hparam))
  | variadicElem _ _ _ _ hslice => exact part_resolves wf hslice .sliceElem
  | variadicOther _ _ hlast _ _ =>
    exact part_resolves wf hform (.param (List.mem_of_getLast? hlast))

theorem usedAs_resolves {e : Expr} {object : ObjectId} {type : TypeId}
    (hc : p.Contains (.expr e)) (h : p.UsedAt settings e object (.interface type)) :
    p.resolves (.type type) := by
  cases h with
  | argument _ _ hform _ hbinds _ => exact binds_resolves wf hform hbinds
  | asserted htarget _ =>
    exact node_resolves wf (hc.part (.ofExpr .assertTarget)) (.exprType htarget)
  | keyed _ _ helement hkey _ =>
    have hpair := hc.part (.ofExpr (.element helement))
    exact node_resolves wf (hpair.part (.ofExpr .key)) (.exprType hkey)
  | positional _ hform _ hfield _ =>
    exact part_resolves wf hform (.field (List.mem_of_getElem? hfield))

/-- Collecting tracks declared objects, and marking records types of the program. -/
theorem marked_resolves (settings : Settings)
    (unbroken : (p.markUses settings (p.pool (p.collect settings)).1).2 = none) :
    (p.markedLedger settings).Resolves p := by
  rw [markedLedger]
  obtain ⟨shares, _, h⟩ := p.pool_pooled (p.collect_leadsTo settings)
  obtain ⟨ops, hops, hleads⟩ := markUses_leadsTo h.leads unbroken
  obtain ⟨history, unused, hbefore⟩ := p.collected_leadsTo settings
  constructor
  · intro v hv
    have hobject := hleads.follows.object v (Ledger.mem_active.mp hv).1
    rw [History.issued_append hops.not_track, h.onlyShares.issued] at hobject
    have htrack := History.track_of_mem_issued (List.mem_of_getElem? hobject)
    obtain ⟨object, ho, he⟩ := mem_tracks.mp htrack
    cases he
    exact declaredObject_resolves wf (List.mem_filter.mp ho).1
  · intro v hv type ht
    have hactive := ((marked_active hbefore unbroken v).mp hv).1
    have hin := hbefore.follows.has_iff.mp (Ledger.mem_active.mp hactive).1
    obtain ⟨before, e, after, object, _, hsplit, hused, _⟩ :=
      (marked_record hbefore unused unbroken hin (.interface type)).mp ht
    have he : e ∈ p.exprs := by simp [hsplit]
    exact usedAs_resolves wf (mem_exprs.mp he) hused

/-- Of an analysis only pooling and reporting can fail to return. -/
theorem analyzeCheckedM_eq (settings : Settings) (includeTests : Bool) :
    p.analyzeCheckedM (m := Strict) settings includeTests = (do
      let pooled ← p.poolM (p.collect settings)
      match (p.markUses settings pooled.1).2 with
      | some breach => return .error (.invariant breach.message)
      | none =>
        let diagnostics ← p.reportM settings includeTests (p.markUses settings pooled.1).1.ledger
        return .ok (.of (p.packageOf p.package).path diagnostics pooled.2
          (p.markUses settings pooled.1).1)) := by
  have hpackage := wf.resolved (.package p.package) .analyzed
  rw [analyzeCheckedM, collectM_ok wf, ok_bind]
  congr 1
  funext pooled
  simp only [markUsesM_ok wf, ok_bind, packageOfM_ok hpackage]
  rcases p.markUses settings pooled.1 with ⟨marking, broken⟩
  cases broken <;> rfl

theorem analyzeCheckedM_follows (settings : Settings) (includeTests : Bool) :
    Follows p.Unsettled (p.analyzeCheckedM settings includeTests)
      (p.analyzeChecked settings includeTests) := by
  rw [analyzeCheckedM_eq wf, analyzeChecked_def]
  refine (poolM_follows wf (p.collect settings)).bind ?_
  have resolved := marked_resolves wf settings
  rw [markedLedger] at resolved
  rcases hrun : p.markUses settings (p.pool (p.collect settings)).1 with ⟨marking, broken⟩
  cases broken with
  | some breach => exact .inl rfl
  | none =>
    rw [hrun] at resolved
    exact (reportM_follows wf settings includeTests (resolved rfl)).map

/-- An analysis returns if pooling does and, unless marking breaks off, reporting. -/
theorem analyzeCheckedM_returns (settings : Settings) (includeTests : Bool) :
    Returns (p.analyzeCheckedM settings includeTests) ↔
      Returns (p.poolM (p.collect settings)) ∧
        ((p.markUses settings (p.pool (p.collect settings)).1).2 = none →
          Returns (p.reportM settings includeTests (p.markedLedger settings))) := by
  have pools := poolM_follows wf (p.collect settings)
  rw [analyzeCheckedM_eq wf, bind_returns, markedLedger]
  constructor
  · rintro ⟨pooled, hpool, hrest⟩
    obtain rfl := pools.eq_of_ok hpool
    refine ⟨⟨_, hpool⟩, ?_⟩
    intro unbroken
    rw [unbroken] at hrest
    exact map_returns.mp hrest
  · rintro ⟨hpool, hreport⟩
    refine ⟨_, pools.ok_of_returns hpool, ?_⟩
    split
    · exact ok_returns _
    · rename_i unbroken
      exact map_returns.mpr (hreport unbroken)

end WellFormed

theorem analyzeM_of_valid (valid : p.defect? = none) (settings : Settings) (includeTests : Bool) :
    p.analyzeM (m := Strict) settings includeTests =
      p.analyzeCheckedM settings includeTests := by
  rw [analyzeM, checked, valid]

/-- A program with a defect is refused before anything is asked. -/
theorem analyzeM_of_defect {defect : Defect} (h : p.defect? = some defect) (settings : Settings)
    (includeTests : Bool) :
    p.analyzeM (m := Strict) settings includeTests = .ok (p.analyze settings includeTests) := by
  rw [analyzeM, analyze_def, checked, h]
  rfl

theorem analyzeM_follows (p : Program) (settings : Settings) (includeTests : Bool) :
    Follows p.Unsettled (p.analyzeM settings includeTests) (p.analyze settings includeTests) := by
  cases h : p.defect? with
  | some defect => exact .inl (analyzeM_of_defect h settings includeTests)
  | none =>
    rw [analyzeM_of_valid h, analyze_of_valid h]
    exact analyzeCheckedM_follows (.of_defect? h) settings includeTests

/-- A run succeeds with what the analysis comes to, if pooling and reporting return. -/
theorem analyzeM_eq_ok {analysis : Analysis} :
    p.analyzeM (m := Strict) settings includeTests = .ok (.ok analysis) ↔
      p.analyze settings includeTests = .ok analysis ∧ Returns (p.poolM (p.collect settings)) ∧
        Returns (p.reportM settings includeTests (p.markedLedger settings)) := by
  have follows := p.analyzeM_follows settings includeTests
  constructor
  · intro run
    have hplain := (follows.eq_of_ok run).symm
    obtain ⟨valid, unbroken, _⟩ := analyze_eq_ok.mp hplain
    rw [analyzeM_of_valid valid] at run
    obtain ⟨hpool, hreport⟩ :=
      (analyzeCheckedM_returns (.of_defect? valid) settings includeTests).mp ⟨_, run⟩
    exact ⟨hplain, hpool, hreport unbroken⟩
  · rintro ⟨hplain, hpool, hreport⟩
    obtain ⟨valid, _, _⟩ := analyze_eq_ok.mp hplain
    have returns : Returns (p.analyzeM settings includeTests) := by
      rw [analyzeM_of_valid valid]
      exact (analyzeCheckedM_returns (.of_defect? valid) settings includeTests).mpr
        ⟨hpool, fun _ => hreport⟩
    rw [follows.ok_of_returns returns, hplain]

/-- A run that succeeds has returned the verdicts on all variables in scope. -/
theorem verdict_of_run {analysis : Analysis} {v : VarId} {request : Request}
    (run : p.analyzeM (m := Strict) settings includeTests = .ok (.ok analysis))
    (hv : v ∈ (p.markedLedger settings).active)
    (scope : p.isInScope settings includeTests (p.markedLedger settings) v = true)
    (hrequest : p.request? ((p.markedLedger settings).variableAt v).object = some request) :
    p.problemsM (m := Strict) request ((p.markedLedger settings).usage v) =
      .ok (p.problems request ((p.markedLedger settings).usage v)) := by
  obtain ⟨hplain, _, hreport⟩ := analyzeM_eq_ok.mp run
  obtain ⟨valid, unbroken, _⟩ := analyze_eq_ok.mp hplain
  have wf := WellFormed.of_defect? valid
  have resolved := marked_resolves wf settings unbroken
  have follows := problemsM_follows wf (request_resolves wf hrequest) (resolved.uses v hv)
  apply follows.ok_of_returns
  exact (reportM_returns wf settings includeTests resolved).mp hreport v hv scope request hrequest

theorem found_of_run {analysis : Analysis} {d : Diagnostic}
    (run : p.analyzeM (m := Strict) settings includeTests = .ok (.ok analysis))
    (found : d ∈ analysis.diagnostics) :
    ∃ v ∈ (p.markedLedger settings).active,
      p.diagnose? (p.markedLedger settings) v = some d ∧
      p.diagnoseM (m := Strict) (p.markedLedger settings) v = .ok (some d) ∧
      ∃ request, p.request? ((p.markedLedger settings).variableAt v).object = some request ∧
        p.problemsM (m := Strict) request ((p.markedLedger settings).usage v) =
          .ok (p.problems request ((p.markedLedger settings).usage v)) := by
  obtain ⟨hplain, _, _⟩ := analyzeM_eq_ok.mp run
  obtain ⟨valid, unbroken, rfl⟩ := analyze_eq_ok.mp hplain
  have wf := WellFormed.of_defect? valid
  have resolved := marked_resolves wf settings unbroken
  obtain ⟨v, hv, hscope, hfound⟩ := mem_report.mp found
  obtain ⟨request, _, hrequest, _⟩ := diagnose?_eq_some hfound
  have returned := verdict_of_run run hv hscope hrequest
  refine ⟨v, hv, hfound, ?_, request, hrequest, returned⟩
  rw [diagnoseM_eq wf resolved hv, ← hfound, diagnose?_def, hrequest]
  simp only [returned]
  rfl

theorem analyzeM_eq_error {failure : Failure} :
    p.analyzeM (m := Strict) settings includeTests = .ok (.error failure) ↔
      p.analyze settings includeTests = .error failure ∧
        (p.defect? = none → Returns (p.poolM (p.collect settings))) := by
  have follows := p.analyzeM_follows settings includeTests
  constructor
  · intro run
    refine ⟨(follows.eq_of_ok run).symm, ?_⟩
    intro valid
    rw [analyzeM_of_valid valid] at run
    exact ((analyzeCheckedM_returns (.of_defect? valid) settings includeTests).mp ⟨_, run⟩).1
  · rintro ⟨hplain, hpool⟩
    cases h : p.defect? with
    | some defect => rw [analyzeM_of_defect h, hplain]
    | none =>
      have returns : Returns (p.analyzeM settings includeTests) := by
        rw [analyzeM_of_valid h]
        refine (analyzeCheckedM_returns (.of_defect? h) settings includeTests).mpr ⟨hpool h, ?_⟩
        intro unbroken
        rw [analyze_eq, h, unbroken] at hplain
        cases hplain
      rw [follows.ok_of_returns returns, hplain]

end Program

end LeastContext

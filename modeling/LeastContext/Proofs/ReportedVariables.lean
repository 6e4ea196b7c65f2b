import LeastContext.Proofs.CollectedVariables
import LeastContext.Proofs.Lists
import LeastContext.Proofs.Strict.Analysis
import Mathlib.Data.List.Forall2
import Mathlib.Data.Prod.Lex

namespace LeastContext

namespace Diagnostic

theorem notAfter_iff {a b : Diagnostic} : a.notAfter b = true ↔
    Prod.Lex (· < ·) (Prod.Lex (· < ·) (· ≤ ·)) (a.file, a.line, a.column)
      (b.file, b.line, b.column) := by
  simp only [notAfter, Prod.lex_def]
  by_cases hfile : a.file = b.file
  · by_cases hline : a.line = b.line <;> simp [hfile, hline]
  · simp [hfile]

theorem notAfter_trans (a b c : Diagnostic) (hab : a.notAfter b = true)
    (hbc : b.notAfter c = true) : a.notAfter c = true := by
  rw [notAfter_iff, Prod.lex_def, Prod.lex_def] at *
  grind

theorem notAfter_total (a b : Diagnostic) : (a.notAfter b || b.notAfter a) = true := by
  rw [Bool.or_eq_true, notAfter_iff, notAfter_iff]
  simp only [Prod.lex_def]
  rcases lt_trichotomy a.file b.file with h | h | h
  · simp [h]
  · rcases Nat.lt_trichotomy a.line b.line with hl | hl | hl
    · simp [h, hl]
    · simp [h, hl, Nat.le_total]
    · simp [h, hl]
  · simp [h]

end Diagnostic

namespace Program

open Strict

variable {p : Program} {settings : Settings} {includeTests : Bool} {ledger : Ledger} {v : VarId}
  {d : Diagnostic}

/-- The object that a variable stands for. -/
def objectAt (p : Program) (ledger : Ledger) (v : VarId) : Object :=
  p.object (ledger.variableAt v).object

/-- A finding about a variable: its object has a type, the record has a problem for this type, and
the finding tells it at the place of the object. -/
structure Finds (p : Program) (ledger : Ledger) (v : VarId) (d : Diagnostic) : Prop where
  problem : ∃ declared types, (p.objectAt ledger v).type = some declared ∧
    (p.problems ⟨declared, (p.objectAt ledger v).package,
      p.explicitComposition (p.objectAt ledger v).package declared⟩ (ledger.usage v)).primary =
        some (d.kind, types) ∧
    d.interfaces = p.nameList (some p.package) types
  subject : d.subject = (p.objectAt ledger v).name
  place : (d.file, d.line, d.column) = p.place (p.objectAt ledger v)

/-- Where a variable is to be reported: the file, line and column of its object, and its number in
the order of collection. -/
def reportKey (p : Program) (ledger : Ledger) (v : VarId) : String × Nat × Nat × Nat :=
  let (file, line, column) := p.place (p.objectAt ledger v)
  (file, line, column, v.index)

/-- The order of a report: by file, line and column, then as the variables were collected. -/
def Precedes (p : Program) (ledger : Ledger) (v w : VarId) : Prop :=
  Prod.Lex (· < ·) (Prod.Lex (· < ·) (Prod.Lex (· < ·) (· < ·)))
    (p.reportKey ledger v) (p.reportKey ledger w)

/-- A list of findings that reports some variables: those that are tracked, in scope and have a
problem, each once and in order. -/
structure Reports (p : Program) (settings : Settings) (includeTests : Bool) (ledger : Ledger)
    (reported : List VarId) (diagnostics : List Diagnostic) : Prop where
  order : reported.Pairwise (p.Precedes ledger)
  members : ∀ v, v ∈ reported ↔ v ∈ ledger.active ∧
    (includeTests = true ∨ settings.isTestFile (p.place (p.objectAt ledger v)).1 = false) ∧
    ∃ d, p.Finds ledger v d
  findings : List.Forall₂ (p.Finds ledger) reported diagnostics

theorem finds_iff : p.diagnose? ledger v = some d ↔ p.Finds ledger v d := by
  constructor
  · intro h
    simp only [diagnose?_def, request?_def, Option.bind_eq_some_iff, Option.map_eq_some_iff] at h
    obtain ⟨request, ⟨declared, htype, rfl⟩, ⟨kind, types⟩, hprimary, rfl⟩ := h
    exact ⟨⟨declared, types, htype, hprimary, rfl⟩, rfl, rfl⟩
  · intro h
    obtain ⟨⟨declared, types, htype, hprimary, hnames⟩, hsubject, hplace⟩ := h
    unfold objectAt at htype hprimary hsubject hplace
    obtain ⟨file, line, column, subject, kind, interfaces⟩ := d
    simp only at hprimary hnames hsubject hplace
    simp [diagnose?_def, request?_def, finding, htype, hprimary, ← hplace, hsubject, hnames]

/-- The tracked variables with problems, in the order of collection. -/
def findings (p : Program) (ledger : Ledger) : List (VarId × Diagnostic) :=
  ledger.active.filterMap fun v => (p.diagnose? ledger v).map (v, ·)

theorem mem_findings {x : VarId × Diagnostic} :
    x ∈ p.findings ledger ↔ x.1 ∈ ledger.active ∧ p.Finds ledger x.1 x.2 := by
  obtain ⟨v, d⟩ := x
  simp [findings, finds_iff]

theorem findings_ascending (p : Program) (ledger : Ledger) :
    (p.findings ledger).Pairwise (·.1.index < ·.1.index) := by
  refine List.pairwise_filterMap.mpr (ledger.active_ascending.imp ?_)
  intro v w hlt x hx y hy
  obtain ⟨_, _, rfl⟩ := Option.map_eq_some_iff.mp hx
  obtain ⟨_, _, rfl⟩ := Option.map_eq_some_iff.mp hy
  exact hlt

/-- The order of findings that are told with their variables. -/
def findingNotAfter (x y : VarId × Diagnostic) : Bool :=
  x.2.notAfter y.2

theorem findingNotAfter_trans (x y z : VarId × Diagnostic) :
    findingNotAfter x y = true → findingNotAfter y z = true → findingNotAfter x z = true :=
  Diagnostic.notAfter_trans x.2 y.2 z.2

theorem findingNotAfter_total (x y : VarId × Diagnostic) :
    (findingNotAfter x y || findingNotAfter y x) = true :=
  Diagnostic.notAfter_total x.2 y.2

/-- The findings of a report with the variables they are about. -/
def reportedFindings (p : Program) (settings : Settings) (includeTests : Bool) (ledger : Ledger) :
    List (VarId × Diagnostic) :=
  ((p.findings ledger).filter fun x => includeTests || !settings.isTestFile x.2.file).mergeSort
    findingNotAfter

theorem report_eq (p : Program) (settings : Settings) (includeTests : Bool) (ledger : Ledger) :
    p.report settings includeTests ledger =
      (p.reportedFindings settings includeTests ledger).map (·.2) := by
  have hsame : ∀ xs : List (VarId × Diagnostic),
      (xs.mergeSort findingNotAfter).map (·.2) = (xs.map (·.2)).mergeSort Diagnostic.notAfter :=
    fun _ => List.map_mergeSort fun _ _ _ _ => rfl
  rw [report_def, reportedFindings, hsame]
  congr 1
  rw [findings, List.filter_filterMap, List.map_filterMap, List.filterMap_filter]
  refine List.filterMap_congr fun v _ => ?_
  cases hd : p.diagnose? ledger v with
  | none => simp
  | some d =>
    -- a finding is in the file of its variable
    have hfile : d.file = (p.place (p.object (ledger.variableAt v).object)).1 :=
      congrArg Prod.fst (finds_iff.mp hd).place
    by_cases hscope : p.isInScope settings includeTests ledger v = true
    · have hkeep := hscope
      rw [isInScope_def, ← hfile] at hkeep
      simp [hscope, Option.filter, hkeep]
    · have hkeep := hscope
      rw [isInScope_def, ← hfile] at hkeep
      simp [hscope, Option.filter, hkeep]

theorem Finds.precedes_iff {w : VarId} {e : Diagnostic} (hv : p.Finds ledger v d)
    (hw : p.Finds ledger w e) : p.Precedes ledger v w ↔
      d.notAfter e = true ∧ (e.notAfter d = true → v.index < w.index) := by
  have hkey : ∀ {u : VarId} {f : Diagnostic}, p.Finds ledger u f →
      p.reportKey ledger u = (f.file, f.line, f.column, u.index) := by
    intro u f hu
    rw [reportKey, ← hu.place]
  rw [Precedes, hkey hv, hkey hw, Diagnostic.notAfter_iff, Diagnostic.notAfter_iff]
  simp only [Prod.lex_def]
  grind

theorem report_reports (p : Program) (settings : Settings) (includeTests : Bool)
    (ledger : Ledger) : ∃ reported, p.Reports settings includeTests ledger reported
      (p.report settings includeTests ledger) := by
  have mem : ∀ x, x ∈ p.reportedFindings settings includeTests ledger ↔
      (x.1 ∈ ledger.active ∧ p.Finds ledger x.1 x.2) ∧
        (includeTests = true ∨ settings.isTestFile x.2.file = false) := by
    intro x
    rw [reportedFindings, List.mem_mergeSort, List.mem_filter, mem_findings]
    simp
  refine ⟨(p.reportedFindings settings includeTests ledger).map (·.1), ?_, ?_, ?_⟩
  · have stable := mergeSort_stable findingNotAfter_trans findingNotAfter_total
      ((p.findings_ascending ledger).filter fun x => includeTests || !settings.isTestFile x.2.file)
    refine List.pairwise_map.mpr (stable.imp_of_mem ?_)
    intro x y hx hy hxy
    exact (((mem x).mp hx).1.2.precedes_iff ((mem y).mp hy).1.2).mpr hxy
  · intro v
    have hfile : ∀ {d}, p.Finds ledger v d → d.file = (p.place (p.objectAt ledger v)).1 :=
      fun h => congrArg Prod.fst h.place
    constructor
    · intro h
      obtain ⟨⟨_, d⟩, hx, rfl⟩ := List.mem_map.mp h
      obtain ⟨⟨hactive, hfinds⟩, hscope⟩ := (mem _).mp hx
      rw [hfile hfinds] at hscope
      exact ⟨hactive, hscope, d, hfinds⟩
    · intro h
      obtain ⟨hactive, hscope, d, hfinds⟩ := h
      rw [← hfile hfinds] at hscope
      exact List.mem_map.mpr ⟨(v, d), (mem _).mpr ⟨⟨hactive, hfinds⟩, hscope⟩, rfl⟩
  · rw [report_eq, List.forall₂_map_left_iff, List.forall₂_map_right_iff]
    refine List.forall₂_same.mpr ?_
    intro x hx
    exact ((mem x).mp hx).1.2

/-- Leaving out test files comes to the same before and after sorting. -/
theorem report_without_tests (p : Program) (settings : Settings) (ledger : Ledger) :
    p.report settings false ledger =
      (p.report settings true ledger).filter fun d => !settings.isTestFile d.file := by
  have hkept : p.reportedFindings settings false ledger =
      (p.reportedFindings settings true ledger).filter fun x => !settings.isTestFile x.2.file := by
    unfold reportedFindings
    rw [← mergeSort_filter findingNotAfter_trans findingNotAfter_total
      (fun _ _ => Nat.lt_asymm) ((p.findings_ascending ledger).filter _)]
    simp
  rw [report_eq, report_eq, hkept, List.filter_map]
  rfl

/-- Variables keep the numbers that collecting gave them. -/
theorem marked_object
    (unbroken : (p.markUses settings (p.pool (p.collect settings)).1).2 = none)
    (hv : v ∈ (p.markedLedger settings).active) :
    (p.collect settings).trackedObjects[v.index]? =
      some ((p.markedLedger settings).variableAt v).object := by
  obtain ⟨shares, _, hpooled⟩ := p.pool_pooled (p.collect_leadsTo settings)
  obtain ⟨ops, hops, hleads⟩ := markUses_leadsTo hpooled.leads unbroken
  have hobject := hleads.follows.object v (Ledger.mem_active.mp hv).1
  rwa [History.issued_append hops.not_track, hpooled.onlyShares.issued, History.issued_tracked,
    ← trackedObjects_collect] at hobject

theorem isInScope_all (v : VarId) : p.isInScope settings true ledger v = true :=
  rfl

/-- Whether test files are included does not matter for success, and if not, the findings in them
are left out of the report and nothing else changes. -/
theorem excluding_tests_only_filters (p : Program) (settings : Settings) :
    (∀ failure, p.analyzeM (m := Strict) settings false = .ok (.error failure) ↔
      p.analyzeM (m := Strict) settings true = .ok (.error failure)) ∧
    ∀ analysis, p.analyzeM (m := Strict) settings true = .ok (.ok analysis) → ∃ rest,
      p.analyzeM (m := Strict) settings false = .ok (.ok rest) ∧
      rest.diagnostics = analysis.diagnostics.filter (fun d => !settings.isTestFile d.file) ∧
      rest.stats.tracked = analysis.stats.tracked ∧
      rest.stats.sharedRecords = analysis.stats.sharedRecords ∧
      rest.stats.unified = analysis.stats.unified ∧
      rest.stats.uses = analysis.stats.uses ∧
      (∃ reported, p.Reports settings true (p.markedLedger settings) reported
        analysis.diagnostics) ∧
      (∃ reported, p.Reports settings false (p.markedLedger settings) reported
        rest.diagnostics) ∧
      (∀ v ∈ (p.markedLedger settings).active, ∀ request,
        p.request? ((p.markedLedger settings).variableAt v).object = some request →
          p.problemsM (m := Strict) request ((p.markedLedger settings).usage v) =
            .ok (p.problems request ((p.markedLedger settings).usage v))) ∧
      ∀ v ∈ (p.markedLedger settings).active, (p.collect settings).trackedObjects[v.index]? =
        some ((p.markedLedger settings).variableAt v).object := by
  have same : ∀ failure, p.analyze settings false = .error failure ↔
      p.analyze settings true = .error failure := by
    intro failure
    rw [analyze_eq_error, analyze_eq_error]
  refine ⟨fun failure => by rw [analyzeM_eq_error, analyzeM_eq_error, same], ?_⟩
  intro analysis run
  obtain ⟨hplain, hpool, hreport⟩ := analyzeM_eq_ok.mp run
  obtain ⟨valid, unbroken, rfl⟩ := analyze_eq_ok.mp hplain
  have wf := WellFormed.of_defect? valid
  have resolved := marked_resolves wf settings unbroken
  -- without test files fewer verdicts are asked for
  have hrest : Returns (p.reportM settings false (p.markedLedger settings)) := by
    rw [reportM_returns wf settings _ resolved] at hreport ⊢
    exact fun v hv _ => hreport v hv (isInScope_all v)
  refine ⟨p.outcome settings false,
    analyzeM_eq_ok.mpr ⟨analyze_eq_ok.mpr ⟨valid, unbroken, rfl⟩, hpool, hrest⟩, ?_, rfl, rfl, rfl,
    rfl, p.report_reports settings true _, p.report_reports settings false _,
    fun v hv request => verdict_of_run run hv (isInScope_all v),
    fun v => marked_object unbroken⟩
  exact p.report_without_tests settings (p.markedLedger settings)

/-- A package with an idle `Logger` in a file and another one in its test file. -/
def idleInTests : Program where
  package := ⟨0⟩
  packages := #[⟨"app", "app"⟩, ⟨"context", "context"⟩]
  types := #[
    .signature ⟨[], [], false⟩,
    .interface ⟨[⟨"Done", none, ⟨0⟩⟩], []⟩,
    .named ⟨"Context", some ⟨1⟩, ⟨1⟩, []⟩,
    .interface ⟨[⟨"Log", none, ⟨0⟩⟩], [⟨2⟩]⟩,
    .named ⟨"Logger", some ⟨0⟩, ⟨3⟩, []⟩]
  objects := #[
    ⟨"checked", .variable, some ⟨0⟩, some ⟨4⟩, some ⟨⟨1⟩, 3, 1⟩⟩,
    ⟨"ctx", .variable, some ⟨0⟩, some ⟨4⟩, some ⟨⟨0⟩, 5, 1⟩⟩]
  files :=
    let value text object : Decl := .gen ⟨.variables,
      [.value [⟨text, ⟨⟨0⟩, 0, 0⟩, some (.defines object)⟩] none []]⟩
    [⟨⟨1⟩, "app_test.go", [value "checked" ⟨0⟩]⟩, ⟨⟨0⟩, "app.go", [value "ctx" ⟨1⟩]⟩]

/-- Both are found, and without test files one of them. -/
theorem idleInTests_filtered : ∃ analysis rest,
    idleInTests.analyzeM (m := Strict) .default true = .ok (.ok analysis) ∧
      idleInTests.analyzeM (m := Strict) .default false = .ok (.ok rest) ∧
      analysis.diagnostics.length = 2 ∧
      rest.diagnostics = [⟨"app.go", 5, 1, "ctx", .allUnused, []⟩] ∧
      rest.diagnostics =
        analysis.diagnostics.filter fun d => !Settings.default.isTestFile d.file := by
  have run : idleInTests.analyzeM (m := Strict) .default true =
      .ok (.ok (idleInTests.outcome .default true)) := by
    have valid : idleInTests.defect? = none := by decide +kernel
    have unbroken : (idleInTests.markUses .default
        (idleInTests.pool (idleInTests.collect .default)).1).2 = none := by
      decide +kernel
    have resolved := marked_resolves (.of_defect? valid) .default unbroken
    refine analyzeM_eq_ok.mpr ⟨analyze_eq_ok.mpr ⟨valid, unbroken, rfl⟩, by decide +kernel, ?_⟩
    rw [reportM_eq .default true resolved]
    exact map_returns.mpr (by decide +kernel)
  obtain ⟨rest, hrest, hfilter, _⟩ := (excluding_tests_only_filters idleInTests .default).2 _ run
  have hlength : (idleInTests.outcome .default true).diagnostics.length = 2 := by
    have hcount : (idleInTests.findings (idleInTests.markedLedger .default)).length = 2 := by
      decide +kernel
    simp [report_eq, reportedFindings, hcount]
  have hone : (idleInTests.outcome .default false).diagnostics =
      [⟨"app.go", 5, 1, "ctx", .allUnused, []⟩] := by
    decide +kernel
  obtain ⟨_, _, rfl⟩ := analyze_eq_ok.mp (analyzeM_eq_ok.mp hrest).1
  exact ⟨_, _, run, hrest, hlength, hone, hfilter⟩

end Program

end LeastContext

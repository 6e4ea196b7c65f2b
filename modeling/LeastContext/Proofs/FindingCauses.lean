import LeastContext.Proofs.ReportedVariables

namespace LeastContext

namespace Problems

variable {problems : Problems}

theorem primary_allUnused : (∃ types, problems.primary = some (.allUnused, types)) ↔
    problems.allUnused = true ∧ problems.cached = false := by
  obtain ⟨allUnused, unused, unrequested, cached⟩ := problems
  cases allUnused <;> cases cached <;> cases unrequested <;> cases unused <;> simp [primary]

theorem primary_unrequested : (∃ types, problems.primary = some (.unrequested, types)) ↔
    (problems.allUnused = true → problems.cached = true) ∧ problems.unrequested ≠ [] := by
  obtain ⟨allUnused, unused, unrequested, cached⟩ := problems
  cases allUnused <;> cases cached <;> cases unrequested <;> cases unused <;> simp [primary]

theorem primary_unused : (∃ types, problems.primary = some (.unused, types)) ↔
    problems.allUnused = false ∧ problems.unused ≠ [] ∧ problems.unrequested = [] := by
  obtain ⟨allUnused, unused, unrequested, cached⟩ := problems
  cases allUnused <;> cases cached <;> cases unrequested <;> cases unused <;> simp [primary]

end Problems

namespace Program

variable {p : Program}

/-- A use covers a capability group: the variable is used as something that implements the group,
or by a method that the group declares. -/
def Covers (p : Program) (leaf : TypeId) : Use → Prop
  | .interface type => p.implements type leaf = true
  | .method name => p.declares name leaf = true
  | .cached => False

/-- A use is covered by what a variable asks for by name: all parts of the type it is used as, or
some interface with the method called, if there is any. -/
def AsksForUse (p : Program) (request : Request) : Use → Prop
  | .interface type =>
    ∀ part ∈ p.explicitComposition request.home type, p.isRequested request part = true
  | .method name =>
    p.explicitlyContaining name request.declared ≠ [] → p.isMethodRequested request name = true
  | .cached => True

theorem isUsed_iff {usage : Usage} {leaf : TypeId} (declaring : p.declaresMethods leaf = true) :
    p.isUsed usage leaf = true ↔ ∃ use, usage.Holds use ∧ p.Covers leaf use := by
  rw [isUsed_def]
  split
  · rename_i hnone
    simp [declaresMethods_def, hnone] at declaring
  · rename_i body hbody
    rw [Bool.or_eq_true, List.any_eq_true, List.any_eq_true]
    constructor
    · rintro (⟨type, hmem, himplements⟩ | ⟨name, hmem, hdeclares⟩)
      · exact ⟨.interface type, hmem, himplements⟩
      · exact ⟨.method name, hmem, by simpa [Covers, declares_def, hbody] using hdeclares⟩
    · intro h
      obtain ⟨use, hholds, hcovers⟩ := h
      cases use with
      | interface type => exact .inl ⟨type, hholds, hcovers⟩
      | method name =>
        exact .inr ⟨name, hholds, by simpa [Covers, declares_def, hbody] using hcovers⟩
      | cached => exact hcovers.elim

theorem unrequestedUses_eq_nil {request : Request} {usage : Usage} :
    p.unrequestedUses request usage = [] ↔ ∀ use, usage.Holds use → p.AsksForUse request use := by
  simp only [List.eq_nil_iff_forall_not_mem, mem_unrequestedUses]
  constructor
  · intro h use hholds
    cases use with
    | interface type =>
      intro part hpart
      by_contra hno
      exact h part (.inl ⟨type, hholds, hpart, by simpa using hno⟩)
    | method name =>
      intro hne
      by_contra hno
      obtain ⟨part, hpart⟩ := List.exists_mem_of_ne_nil _ hne
      exact h part (.inr ⟨name, hholds, by simpa using hno, hpart⟩)
    | cached => trivial
  · rintro h part (⟨type, hmem, hpart, hno⟩ | ⟨name, hmem, hno, hpart⟩)
    · have := h (.interface type) hmem part hpart
      simp [hno] at this
    · have := h (.method name) hmem (List.ne_nil_of_mem hpart)
      simp [hno] at this

section Verdict

variable {request : Request} {usage : Usage}

theorem mem_unused {leaf : TypeId} : leaf ∈ (p.problems request usage).unused ↔
    leaf ∈ p.leafGroups request.declared ∧ ¬ ∃ use, usage.Holds use ∧ p.Covers leaf use := by
  simp only [problems_def, unusedGroups_def, List.mem_filter]
  refine and_congr_right fun hleaf => ?_
  rw [← isUsed_iff (declaresMethods_of_mem_leafGroups hleaf)]
  simp

/-- A variable that has capability groups uses none of them if all of them are listed. -/
theorem allUnused_iff (groups : p.leafGroups request.declared ≠ []) :
    (p.problems request usage).allUnused = true ↔ ∀ leaf ∈ p.leafGroups request.declared,
      ¬ ∃ use, usage.Holds use ∧ p.Covers leaf use := by
  have hlength : (p.problems request usage).allUnused = true ↔
      (p.problems request usage).unused = p.leafGroups request.declared := by
    simp [problems_def, unusedGroups_def, groups, List.length_filter_eq_length_iff]
  rw [hlength]
  constructor
  · intro hall leaf hleaf
    exact (mem_unused.mp (hall ▸ hleaf)).2
  · intro h
    simp only [problems_def, unusedGroups_def]
    refine List.filter_eq_self.mpr ?_
    intro leaf hleaf
    have hunused : leaf ∈ (p.problems request usage).unused := mem_unused.mpr ⟨hleaf, h leaf hleaf⟩
    simp only [problems_def, unusedGroups_def] at hunused
    exact (List.mem_filter.mp hunused).2

end Verdict

section Run

variable {settings : Settings} {includeTests : Bool} {analysis : Analysis} {v : VarId}

/-- An expression of the program uses a variable, or one that shares its record, in a form that
marking knows, and nothing before it has dropped that variable. -/
def IsSeen (p : Program) (settings : Settings) (v : VarId) (use : Use) : Prop :=
  ∃ before e after object w, p.exprs = before ++ e :: after ∧ p.UsedAt settings e object use ∧
    (∀ d ∈ before, ¬ p.DropsAt settings d object) ∧
    (p.pool (p.collect settings)).1.lookup object = some w ∧
    (p.pool (p.collect settings)).1.root w = (p.pool (p.collect settings)).1.root v

/-- A seen use of a variable covers a capability group. -/
def IsCovered (p : Program) (settings : Settings) (v : VarId) (leaf : TypeId) : Prop :=
  ∃ use, p.IsSeen settings v use ∧ p.Covers leaf use

/-- Findings about a variable are wanted. -/
def IsWanted (p : Program) (settings : Settings) (includeTests : Bool) (v : VarId) : Prop :=
  includeTests = true ∨
    settings.isTestFile (p.place (p.objectAt (p.markedLedger settings) v)).1 = false

/-- An analysis reports a variable, with a problem of some kind. -/
def Tells (p : Program) (settings : Settings) (analysis : Analysis) (v : VarId)
    (kind : ProblemKind) : Prop :=
  ∃ d ∈ analysis.diagnostics, p.Finds (p.markedLedger settings) v d ∧ d.kind = kind

theorem isInScope_iff : p.isInScope settings includeTests (p.markedLedger settings) v = true ↔
    p.IsWanted settings includeTests v := by
  simp [isInScope_def, IsWanted, objectAt]

/-- A finding that is told is wanted, so its variable is reported. -/
theorem tells_iff_finds (run : p.analyze settings includeTests = .ok analysis)
    (hv : v ∈ (p.markedLedger settings).active) {kind : ProblemKind} :
    p.Tells settings analysis v kind ↔ p.IsWanted settings includeTests v ∧
      ∃ d, p.Finds (p.markedLedger settings) v d ∧ d.kind = kind := by
  obtain ⟨_, _, rfl⟩ := analyze_eq_ok.mp run
  simp only [Tells, outcome_diagnostics, mem_report, isInScope_iff]
  constructor
  · intro h
    obtain ⟨d, ⟨w, _, hwanted, hw⟩, hfinds, hkind⟩ := h
    refine ⟨?_, d, hfinds, hkind⟩
    have hfile : (p.place (p.objectAt (p.markedLedger settings) w)).1 =
        (p.place (p.objectAt (p.markedLedger settings) v)).1 := by
      rw [← (finds_iff.mp hw).place, ← hfinds.place]
    rwa [IsWanted, hfile] at hwanted
  · intro h
    obtain ⟨hwanted, d, hfinds, hkind⟩ := h
    exact ⟨d, ⟨v, hv, hwanted, finds_iff.mpr hfinds⟩, hfinds, hkind⟩

theorem exists_finds {ledger : Ledger} {request : Request} {kind : ProblemKind}
    (hrequest : p.request? (ledger.variableAt v).object = some request) :
    (∃ d, p.Finds ledger v d ∧ d.kind = kind) ↔
      ∃ types, (p.problems request (ledger.usage v)).primary = some (kind, types) := by
  simp only [← finds_iff]
  constructor
  · intro h
    obtain ⟨d, hd, rfl⟩ := h
    obtain ⟨request', types, hrequest', hprimary, _⟩ := diagnose?_eq_some hd
    obtain rfl := Option.some.inj (hrequest.symm.trans hrequest')
    exact ⟨types, hprimary⟩
  · intro h
    obtain ⟨types, hprimary⟩ := h
    simp [diagnose?_def, hrequest, hprimary, finding]

theorem holds_iff_seen (run : p.analyze settings includeTests = .ok analysis)
    (hv : v ∈ (p.markedLedger settings).active) {use : Use} :
    ((p.markedLedger settings).usage v).Holds use ↔ p.IsSeen settings v use := by
  obtain ⟨_, unbroken, _⟩ := analyze_eq_ok.mp run
  obtain ⟨history, unused, hleads⟩ := p.collected_leadsTo settings
  have hactive := ((marked_active hleads unbroken v).mp hv).1
  have hin := hleads.follows.has_iff.mp (Ledger.mem_active.mp hactive).1
  exact marked_record hleads unused unbroken hin use

theorem request_of_active (run : p.analyze settings includeTests = .ok analysis)
    (hv : v ∈ (p.markedLedger settings).active) : ∃ request,
      p.request? ((p.markedLedger settings).variableAt v).object = some request ∧
        p.leafGroups request.declared ≠ [] := by
  obtain ⟨valid, unbroken, _⟩ := analyze_eq_ok.mp run
  have htracked := List.mem_of_getElem? (marked_object unbroken hv)
  obtain ⟨_, checked⟩ := (mem_trackedObjects (WellFormed.of_defect? valid)).mp htracked
  obtain ⟨declared, htype, _, hgroups, _⟩ := checked.type
  let object := p.object ((p.markedLedger settings).variableAt v).object
  refine ⟨⟨declared, object.package, p.explicitComposition object.package declared⟩, ?_, hgroups⟩
  simp only [request?_def, htype, Option.map_some, object]

/-- What is reported about a variable is settled by the uses of it, and of those that share its
record, that are seen. Nothing used: no such use covers a group, and the variable is not seen to
be cached. Not asked for: some such use is not asked for by name, and nothing used is not said.
Not used: all such uses are asked for and cover some groups, but not all. -/
theorem findings_rest_on_seen_uses (p : Program) (settings : Settings) (includeTests : Bool)
    {analysis : Analysis}
    (run : p.analyzeM (m := Strict) settings includeTests = .ok (.ok analysis)) {v : VarId}
    (hv : v ∈ (p.markedLedger settings).active) : ∃ request,
      p.request? ((p.markedLedger settings).variableAt v).object = some request ∧
      (p.Tells settings analysis v .allUnused ↔ p.IsWanted settings includeTests v ∧
        (∀ leaf ∈ p.leafGroups request.declared, ¬ p.IsCovered settings v leaf) ∧
        ¬ p.IsSeen settings v .cached) ∧
      (p.Tells settings analysis v .unrequested ↔ p.IsWanted settings includeTests v ∧
        ((∀ leaf ∈ p.leafGroups request.declared, ¬ p.IsCovered settings v leaf) →
          p.IsSeen settings v .cached) ∧
        ∃ use, p.IsSeen settings v use ∧ ¬ p.AsksForUse request use) ∧
      (p.Tells settings analysis v .unused ↔ p.IsWanted settings includeTests v ∧
        (∃ leaf ∈ p.leafGroups request.declared, p.IsCovered settings v leaf) ∧
        (∃ leaf ∈ p.leafGroups request.declared, ¬ p.IsCovered settings v leaf) ∧
        ∀ use, p.IsSeen settings v use → p.AsksForUse request use) := by
  have run := (analyzeM_eq_ok.mp run).1
  obtain ⟨request, hrequest, hgroups⟩ := request_of_active run hv
  have hseen : ∀ use, ((p.markedLedger settings).usage v).Holds use ↔ p.IsSeen settings v use :=
    fun use => holds_iff_seen run hv
  have hcovered : ∀ leaf, (∃ use, ((p.markedLedger settings).usage v).Holds use ∧
      p.Covers leaf use) ↔ p.IsCovered settings v leaf := by
    intro leaf
    simp only [IsCovered, hseen]
  obtain ⟨problems, hproblems⟩ : ∃ problems,
    p.problems request ((p.markedLedger settings).usage v) = problems := ⟨_, rfl⟩
  have hidle : problems.allUnused = true ↔
      ∀ leaf ∈ p.leafGroups request.declared, ¬ p.IsCovered settings v leaf := by
    simp only [← hproblems, allUnused_iff hgroups, hcovered]
  have hcached : problems.cached = true ↔ p.IsSeen settings v .cached := by
    rw [← hseen, ← hproblems]
    rfl
  have hasked : problems.unrequested = [] ↔
      ∀ use, p.IsSeen settings v use → p.AsksForUse request use := by
    simp only [← hproblems, ← hseen]
    exact unrequestedUses_eq_nil
  have hunused : problems.unused ≠ [] ↔
      ∃ leaf ∈ p.leafGroups request.declared, ¬ p.IsCovered settings v leaf := by
    simp only [← hproblems, ne_eq, List.eq_nil_iff_forall_not_mem, mem_unused, hcovered,
      not_forall, not_not]
  refine ⟨request, hrequest, ?_, ?_, ?_⟩
  · rw [tells_iff_finds run hv, exists_finds hrequest, hproblems, Problems.primary_allUnused,
      hidle, ← hcached, Bool.not_eq_true]
  · rw [tells_iff_finds run hv, exists_finds hrequest, hproblems, Problems.primary_unrequested,
      hidle, hcached, ne_eq, hasked]
    simp only [not_forall, exists_prop]
  · rw [tells_iff_finds run hv, exists_finds hrequest, hproblems, Problems.primary_unused,
      ← Bool.not_eq_true, hidle, hasked, hunused]
    simp only [not_forall, not_not, exists_prop]

end Run

/-- The variable `ctx` of type `Env`. -/
def returnedVariable : Expr :=
  ⟨.ident ⟨"ctx", ⟨⟨0⟩, 0, 0⟩, some (.uses ⟨0⟩)⟩, some ⟨6⟩⟩

/-- A function `F(ctx Env)` that does something and then returns `ctx`, where `Env` embeds the base
context and `Logger`. -/
def returning (body : List Stmt) : Program where
  package := ⟨0⟩
  packages := #[⟨"app", "app"⟩, ⟨"context", "context"⟩]
  types := #[
    .signature ⟨[], [], false⟩,
    .interface ⟨[⟨"Done", none, ⟨0⟩⟩], []⟩,
    .named ⟨"Context", some ⟨1⟩, ⟨1⟩, []⟩,
    .interface ⟨[⟨"Log", none, ⟨0⟩⟩], []⟩,
    .named ⟨"Logger", some ⟨0⟩, ⟨3⟩, []⟩,
    .interface ⟨[], [⟨2⟩, ⟨4⟩]⟩,
    .named ⟨"Env", some ⟨0⟩, ⟨5⟩, []⟩]
  objects := #[⟨"ctx", .variable, some ⟨0⟩, some ⟨6⟩, some ⟨⟨0⟩, 3, 8⟩⟩]
  files :=
    let name text binding : Ident := ⟨text, ⟨⟨0⟩, 0, 0⟩, binding⟩
    let env : Expr := ⟨.ident (name "Env" none), some ⟨6⟩⟩
    [⟨⟨0⟩, "app.go", [.func ⟨none, name "F" none,
      ⟨[⟨[name "ctx" (some (.defines ⟨0⟩))], env⟩], [⟨[], env⟩]⟩,
      some ⟨body ++ [.returning [returnedVariable]]⟩⟩]⟩]

/-- A variable that is only returned is reported as one of which nothing is used. -/
theorem returned_variable_reported : (returning []).defect? = none ∧
    returnedVariable.Names ⟨0⟩ ∧ (returning []).Contains (.stmt (.returning [returnedVariable])) ∧
    (∀ e, (returning []).Contains (.expr e) → ∀ use, ¬ (returning []).UsedAt .default e ⟨0⟩ use) ∧
    (returning []).analyzeM (m := Strict) .default false =
      .ok (.ok ⟨"app", [⟨"app.go", 3, 8, "ctx", .allUnused, []⟩], ⟨1, 1, 0, 0, 1, 0, 0⟩⟩) := by
  have hmarks : ∀ e ∈ (returning []).exprs,
      ((returning []).marks .default e).toOption = some [] := by
    decide +kernel
  refine ⟨by decide +kernel, .ident rfl, ?_, ?_, by decide +kernel⟩
  · refine ⟨_, List.mem_singleton_self _, ?_⟩
    refine .head (.decl (List.mem_singleton_self _)) (.head .func (.head (.body rfl) ?_))
    exact .single (.stmtOf (List.mem_singleton_self _))
  · intro e he use hused
    have hnone := hmarks e (mem_exprs.mpr he)
    cases hrun : (returning []).marks .default e with
    | error breach =>
      rw [hrun] at hnone
      cases hnone
    | ok marks =>
      rw [hrun] at hnone
      obtain rfl : marks = [] := Option.some.inj hnone
      exact List.not_mem_nil ((mark_mem_marks hrun).mpr hused)

/-- The call `ctx.Log()`. -/
def returnedLog : Stmt :=
  .expr ⟨.call ⟨.selector returnedVariable ⟨"Log", ⟨⟨0⟩, 0, 0⟩, none⟩, some ⟨0⟩⟩ [] false, none⟩

/-- Where `ctx.Log()` is called as well, one of the groups is covered and the other one is not, and
the call is asked for. -/
theorem returned_variable_partly_covered : ∃ analysis request,
    (returning [returnedLog]).analyzeM (m := Strict) .default false = .ok (.ok analysis) ∧
    ⟨0⟩ ∈ ((returning [returnedLog]).markedLedger .default).active ∧
    (returning [returnedLog]).request?
      (((returning [returnedLog]).markedLedger .default).variableAt ⟨0⟩).object = some request ∧
    (∃ leaf ∈ (returning [returnedLog]).leafGroups request.declared,
      (returning [returnedLog]).IsCovered .default ⟨0⟩ leaf) ∧
    (∃ leaf ∈ (returning [returnedLog]).leafGroups request.declared,
      ¬ (returning [returnedLog]).IsCovered .default ⟨0⟩ leaf) ∧
    ∀ use, (returning [returnedLog]).IsSeen .default ⟨0⟩ use →
      (returning [returnedLog]).AsksForUse request use := by
  have run : (returning [returnedLog]).analyzeM (m := Strict) .default false =
      .ok (.ok ⟨"app", [⟨"app.go", 3, 8, "ctx", .unused, ["context.Context"]⟩],
        ⟨1, 1, 0, 1, 0, 0, 1⟩⟩) := by
    decide +kernel
  have hv : ⟨0⟩ ∈ ((returning [returnedLog]).markedLedger .default).active := by decide +kernel
  have hd : (returning [returnedLog]).diagnose?
      ((returning [returnedLog]).markedLedger .default) ⟨0⟩ =
        some ⟨"app.go", 3, 8, "ctx", .unused, ["context.Context"]⟩ := by
    decide +kernel
  obtain ⟨request, hrequest, _, _, hunused⟩ :=
    findings_rest_on_seen_uses (returning [returnedLog]) .default false run hv
  have htells := (tells_iff_finds (analyzeM_eq_ok.mp run).1 hv).mpr
    ⟨.inr (by decide +kernel), _, finds_iff.mp hd, rfl⟩
  exact ⟨_, request, run, hv, hrequest, (hunused.mp htells).2⟩

end Program

end LeastContext

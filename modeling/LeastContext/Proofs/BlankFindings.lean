import LeastContext.Proofs.Strict.Analysis

namespace LeastContext.Program

variable {p : Program} {home : Option PackageId} {id : TypeId}

/-- An interface of which a message about a package writes nothing: the package cannot name it, it
has no methods of its own, and its embeds are no better. -/
inductive Hollow (p : Program) (home : Option PackageId) : TypeId → Prop where
  | intro {id : TypeId} {body : Interface} :
      p.interface? id = some body → p.isNameable home id = false → body.methods = [] →
        (∀ e ∈ body.embeds, Hollow p home e) → Hollow p home id

theorem hollow_iff {body : Interface} (h : p.interface? id = some body) : p.Hollow home id ↔
    p.isNameable home id = false ∧ body.methods = [] ∧ ∀ e ∈ body.embeds, p.Hollow home e := by
  constructor
  · intro hollow
    obtain ⟨h', hname, hmethods, hembeds⟩ := hollow
    obtain rfl := Option.some.inj (h.symm.trans h')
    exact ⟨hname, hmethods, hembeds⟩
  · intro parts
    exact .intro h parts.1 parts.2.1 parts.2.2

theorem Hollow.not_declaring (h : p.Hollow home id) : p.declaresMethods id = false := by
  obtain ⟨hbody, _, hmethods, _⟩ := h
  simp [declaresMethods_def, hbody, hmethods]

theorem expandWithin_eq_nil {depth : Nat} (shallow : Digraph.Shallow p.embeds depth id) :
    p.expandWithin home depth id = [] ↔ p.Hollow home id := by
  induction depth generalizing id with
  | zero => exact shallow.elim
  | succ depth ih =>
    rw [expandWithin_succ]
    split
    · rename_i hnone
      constructor
      · intro h
        cases h
      · intro hollow
        obtain ⟨hsome, _, _, _⟩ := hollow
        rw [hnone] at hsome
        cases hsome
    · rename_i body hbody
      have below : ∀ e ∈ body.embeds, p.expandWithin home depth e = [] ↔ p.Hollow home e := by
        intro e he
        exact ih (shallow.next (mem_embeds.mpr (.of_body hbody he)))
      rw [hollow_iff hbody]
      cases hname : p.isNameable home id with
      | true => simp
      | false =>
        simp only [Bool.false_eq_true, if_false, List.append_eq_nil_iff, List.flatMap_eq_nil_iff,
          true_and]
        rw [forall₂_congr below, and_comm]
        cases body.methods <;> simp

/-- There is nothing to write exactly of the hollow interfaces. -/
theorem expand_eq_nil (wf : p.WellFormed) : p.expand home id = [] ↔ p.Hollow home id :=
  expandWithin_eq_nil (embeds_shallow wf id)

theorem nameList_eq_nil {ids : List TypeId} (wf : p.WellFormed) :
    p.nameList home ids = [] ↔ ∀ id ∈ ids, p.Hollow home id := by
  have sorted : ∀ names : List String,
      (names.mergeSort fun a b => a ≤ b).eraseDups = [] ↔ names = [] := by
    intro names
    simp only [List.eq_nil_iff_forall_not_mem, List.mem_eraseDups, List.mem_mergeSort]
  simp only [nameList_def, sorted, List.map_eq_nil_iff, List.flatMap_eq_nil_iff, expand_eq_nil wf]

end LeastContext.Program

namespace LeastContext.Problems

variable {problems : Problems} {kind : ProblemKind} {types : List TypeId}

/-- What each kind of problem lists. -/
theorem primary_cases (h : problems.primary = some (kind, types)) :
    (kind = .allUnused ∧ types = []) ∨
      (kind = .unrequested ∧ types = problems.unrequested ∧ types ≠ []) ∨
      kind = .unused ∧ types = problems.unused ∧ types ≠ [] := by
  unfold primary at h
  split at h
  · cases h
    exact .inl ⟨rfl, rfl⟩
  · split at h
    · rename_i hlisted
      cases h
      exact .inr (.inl ⟨rfl, rfl, by simpa using hlisted⟩)
    · split at h
      · cases h
      · split at h
        · rename_i hlisted
          cases h
          exact .inr (.inr ⟨rfl, rfl, by simpa using hlisted⟩)
        · cases h

end LeastContext.Problems

namespace LeastContext.Program

variable {p : Program}

/-- A finding names nothing exactly if it is about a variable of which nothing is used, or all the
interfaces that its variable uses without asking for them are hollow. -/
theorem finding_blank_iff (p : Program) (valid : p.defect? = none) (settings : Settings)
    (includeTests : Bool) {analysis : Analysis}
    (run : p.analyzeM (m := Strict) settings includeTests = .ok (.ok analysis)) {d : Diagnostic}
    (found : d ∈ analysis.diagnostics) :
    ∃ v ∈ (p.markedLedger settings).active, ∃ request problems,
      p.diagnoseM (m := Strict) (p.markedLedger settings) v = .ok (some d) ∧
        p.request? ((p.markedLedger settings).variableAt v).object = some request ∧
        p.problemsM (m := Strict) request ((p.markedLedger settings).usage v) = .ok problems ∧
        (d.interfaces = [] ↔ d.kind = .allUnused ∨ d.kind = .unrequested ∧
          ∀ e ∈ problems.unrequested, p.Hollow (some p.package) e) := by
  have wf := WellFormed.of_defect? valid
  obtain ⟨v, hv, hfound, hd, request, hrequest, returned⟩ := found_of_run run found
  refine ⟨v, hv, request, _, hd, hrequest, returned, ?_⟩
  obtain ⟨_, types, hrequest', hprimary, hnames⟩ := diagnose?_eq_some hfound
  obtain rfl := Option.some.inj (hrequest'.symm.trans hrequest)
  rw [hnames, nameList_eq_nil wf]
  rcases Problems.primary_cases hprimary with ⟨hk, rfl⟩ | ⟨hk, rfl, _⟩ | ⟨hk, rfl, hne⟩
  · simp [hk]
  · simp [hk]
  · -- a group that is not used declares methods, so something is written of it
    obtain ⟨leaf, hleaf⟩ := List.exists_mem_of_ne_nil _ hne
    have hgroup := hleaf
    rw [problems_def, unusedGroups_def] at hgroup
    have hdeclares := declaresMethods_of_mem_leafGroups (List.mem_filter.mp hgroup).1
    have named : ¬ p.Hollow (some p.package) leaf := by
      intro hollow
      rw [hollow.not_declaring] at hdeclares
      cases hdeclares
    simp only [hk, reduceCtorEq, false_and, or_self, iff_false, not_forall]
    exact ⟨leaf, hleaf, named⟩

/-- A package that calls `Log` on its `Logger` and gives it to a function of another package, whose
parameter is of an unexported type `marker = interface {}`. -/
def markerParameter : Program where
  package := ⟨0⟩
  packages := #[⟨"app", "app"⟩, ⟨"context", "context"⟩, ⟨"lib", "lib"⟩]
  types := #[
    .signature ⟨[], [], false⟩,
    .interface ⟨[⟨"Done", none, ⟨0⟩⟩], []⟩,
    .named ⟨"Context", some ⟨1⟩, ⟨1⟩, []⟩,
    .interface ⟨[⟨"Log", none, ⟨0⟩⟩], [⟨2⟩]⟩,
    .named ⟨"Logger", some ⟨0⟩, ⟨3⟩, []⟩,
    .interface ⟨[], []⟩,
    .named ⟨"marker", some ⟨2⟩, ⟨5⟩, []⟩,
    .signature ⟨[⟨⟨6⟩, none⟩], [], false⟩]
  objects := #[⟨"ctx", .variable, some ⟨0⟩, some ⟨4⟩, none⟩]
  files :=
    let name text binding : Ident := ⟨text, ⟨⟨0⟩, 0, 0⟩, binding⟩
    let ctx : Expr := ⟨.ident (name "ctx" (some (.uses ⟨0⟩))), some ⟨4⟩⟩
    let log : Expr := ⟨.selector ctx (name "Log" none), some ⟨0⟩⟩
    let take : Expr := ⟨.ident (name "Take" none), some ⟨7⟩⟩
    let param : Field :=
      ⟨[name "ctx" (some (.defines ⟨0⟩))], ⟨.ident (name "Logger" none), some ⟨4⟩⟩⟩
    [⟨⟨0⟩, "app.go", [.func ⟨none, name "F" none, ⟨[param], []⟩,
      some ⟨[.expr ⟨.call log [] false, none⟩, .expr ⟨.call take [ctx] false, none⟩]⟩⟩]⟩]

theorem markerParameter_valid : markerParameter.defect? = none := by
  decide +kernel

/-- The only finding about this package says that something was not asked for, and names nothing. -/
theorem markerParameter_run : markerParameter.analyzeM (m := Strict) .default false =
    .ok (.ok ⟨"app", [⟨"", 0, 0, "ctx", .unrequested, []⟩], ⟨1, 1, 0, 2, 0, 1, 0⟩⟩) := by
  decide +kernel

/-- All that the variable uses without asking for it is hollow. -/
theorem markerParameter_hollow :
    markerParameter.defect? = none ∧
      ∃ v ∈ (markerParameter.markedLedger .default).active, ∃ request problems,
        markerParameter.request? ((markerParameter.markedLedger .default).variableAt v).object =
          some request ∧
        markerParameter.problemsM (m := Strict) request
          ((markerParameter.markedLedger .default).usage v) = .ok problems ∧
        ∀ e ∈ problems.unrequested, markerParameter.Hollow (some ⟨0⟩) e := by
  obtain ⟨v, hv, request, problems, _, hrequest, hproblems, hblank⟩ :=
    finding_blank_iff markerParameter markerParameter_valid .default false markerParameter_run
      (List.mem_singleton_self _)
  rcases hblank.mp rfl with hkind | ⟨_, hollow⟩
  · cases hkind
  · exact ⟨markerParameter_valid, v, hv, request, problems, hrequest, hproblems, hollow⟩

/-- A package without defects can get a finding of a kind that lists interfaces and lists none. -/
theorem itemized_finding_can_be_blank :
    markerParameter.defect? = none ∧
      ∃ analysis d, markerParameter.analyzeM (m := Strict) .default false = .ok (.ok analysis) ∧
        d ∈ analysis.diagnostics ∧ d.kind = .unrequested ∧ d.interfaces = [] :=
  ⟨markerParameter_valid, _, _, markerParameter_run, List.mem_singleton_self _, rfl, rfl⟩

end LeastContext.Program

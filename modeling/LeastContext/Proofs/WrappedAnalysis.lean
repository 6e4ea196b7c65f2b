import LeastContext.Proofs.CollectedVariables
import LeastContext.Proofs.Lists
import LeastContext.Proofs.Strict.Analysis
import LeastContext.Proofs.WrappedMarks
import LeastContext.Proofs.WrappedPools

namespace LeastContext

open Strict

/-- An expression that selects a member of a bare identifier. -/
inductive Expr.SelectsFrom : Expr → ObjectId → Prop where
  | selector {operand member type object} :
      operand.Names object → SelectsFrom ⟨.selector operand member, type⟩ object

variable {fixed : Expr → Prop}

namespace Node

variable {n n' : Node}

theorem isSearched_head (n : Node) : n.head.isSearched = n.isSearched := by
  cases n with
  | expr e =>
    obtain ⟨form, type⟩ := e
    cases form <;> rfl
  | _ => rfl

theorem isSearched_of_head (h : n'.head = n.head) : n'.isSearched = n.isSearched := by
  rw [← isSearched_head, h, isSearched_head]

theorem Alike.defined? (h : n.Alike fixed n') : n'.defined? = n.defined? := by
  have hhead : ∀ n : Node, n.head.defined? = n.defined? := by
    intro n
    cases n <;> rfl
  rw [← hhead, h.head, hhead]

theorem Alike.expr?_none (h : n.Alike fixed n') (hn : n.expr? = none) : n'.expr? = none := by
  have hhead : ∀ n : Node, n.head.expr?.isSome = n.expr?.isSome := by
    intro n
    cases n <;> rfl
  rw [← Option.not_isSome_iff_eq_none, ← hhead, h.head, hhead, hn]
  nofun

theorem mentions_head {r : Reference} : n.head.Mentions r ↔ n.Mentions r := by
  cases n with
  | ident name => rfl
  | expr e =>
    constructor
    · intro h
      cases h with
      | exprType htype => exact .exprType htype
    · intro h
      cases h with
      | exprType htype => exact .exprType htype
  | _ => constructor <;> nofun

theorem Alike.mentions {r : Reference} (h : n.Alike fixed n') (hr : n'.Mentions r) :
    n.Mentions r := by
  rwa [← mentions_head, ← h.head, mentions_head]

/-- A wrapped tree mentions nothing new. -/
theorem Wrapped.mentions {r : Reference} (h : n.Wrapped fixed n') :
    ∀ part' ∈ n'.all, part'.Mentions r → ∃ part ∈ n.all, part.Mentions r := by
  refine h.induct ?_ ?_
  · intro e e' _ _ ih part' hpart hr
    rw [all_eq] at hpart
    rcases List.mem_cons.mp hpart with rfl | hpart
    · cases hr with
      | exprType htype =>
        refine ⟨.expr e, ?_, .exprType htype⟩
        rw [all_eq]
        exact List.mem_cons_self
    · obtain ⟨child, hchild, hpart⟩ := List.mem_flatMap.mp hpart
      cases List.mem_singleton.mp hchild
      exact ih part' hpart hr
  · intro n n' halike ih part' hpart hr
    rw [all_eq] at hpart ⊢
    rcases List.mem_cons.mp hpart with rfl | hpart
    · exact ⟨n, List.mem_cons_self, halike.mentions hr⟩
    · obtain ⟨child', hchild', hpart⟩ := List.mem_flatMap.mp hpart
      obtain ⟨child, hchild, hstep⟩ := exists_of_forall₂ ih hchild'
      obtain ⟨part, hpart, hr⟩ := hstep part' hpart hr
      exact ⟨part, List.mem_cons_of_mem _ (List.mem_flatMap.mpr ⟨child, hchild, hpart⟩), hr⟩

end Node

/-- Whether a mark can be more than the method of an object that is not tracked. -/
def History.counts (history : History) : Mark → Bool
  | .method object _ => history.tracks object
  | _ => true

/-- Uses of objects that are not tracked may be left out. -/
theorem Marking.foldl_filter {history : History} {marking : Marking} {keep : Mark → Bool}
    (h : history.LeadsTo marking.ledger) (marks : List Mark)
    (idle : ∀ mark, keep mark = false →
      ∃ object use, mark = Use.mark object use ∧ history.tracks object = false) :
    (marks.filter keep).foldl apply marking = marks.foldl apply marking := by
  induction marks generalizing history marking with
  | nil => rfl
  | cons mark marks ih =>
    cases hkeep : keep mark with
    | false =>
      obtain ⟨object, use, rfl, htracks⟩ := idle mark hkeep
      have hlookup := h.follows.lookup_none_iff.mpr htracks
      rw [List.filter_cons_of_neg (by simp [hkeep]), List.foldl_cons,
        apply_untracked hlookup, ih h idle]
    | true =>
      obtain ⟨ops, hops, hleads⟩ := marks_leadTo h [mark]
      rw [List.filter_cons_of_pos hkeep, List.foldl_cons, List.foldl_cons]
      refine ih hleads ?_
      intro other hother
      obtain ⟨object, use, rfl, htracks⟩ := idle other hother
      refine ⟨object, use, rfl, Bool.eq_false_iff.mpr ?_⟩
      intro htracks'
      rw [((History.tracks_append hops.not_track).mp htracks').1] at htracks
      cases htracks

namespace Program

variable {p : Program} {settings : Settings} {files' : List SourceFile}

theorem exprs_flatMap (p : Program) {β : Type} (own : Expr → List β) :
    p.exprs.flatMap own = p.files.flatMap fun f =>
      ((Node.file f).walk fun _ => true).flatMap fun n => n.expr?.toList.flatMap own := by
  have hexprs : p.exprs = p.files.flatMap fun f =>
      ((Node.file f).walk fun _ => true).flatMap fun n => n.expr?.toList := by
    rw [exprs]
    congr 1
    funext f
    exact List.filterMap_eq_flatMap_toList ..
  simp only [hexprs, List.flatMap_assoc]

def breach? (p : Program) (settings : Settings) (e : Expr) : Option Breach :=
  match p.marks settings e with
  | .error breach => some breach
  | .ok _ => none

theorem markExprs_breach? {marking : Marking} {exprs : List Expr} :
    (p.markExprs settings marking exprs).2 = (exprs.filterMap (p.breach? settings)).head? := by
  induction exprs generalizing marking with
  | nil => rfl
  | cons e exprs ih =>
    rw [markExprs_cons]
    cases he : p.marks settings e with
    | error breach => simp [breach?, he]
    | ok marks => simp [breach?, he, ih]

theorem breach?_of_map {e e' : Expr} {keep : Mark → Bool}
    (h : (p.marks settings e').map (List.filter keep) =
      (p.marks settings e).map (List.filter keep)) :
    p.breach? settings e' = p.breach? settings e := by
  cases he : p.marks settings e <;> cases he' : p.marks settings e' <;>
    simp_all [breach?, Except.map]

theorem marksOf_of_map {e e' : Expr} {keep : Mark → Bool}
    (h : (p.marks settings e').map (List.filter keep) =
      (p.marks settings e).map (List.filter keep)) :
    (p.marksOf settings e').filter keep = (p.marksOf settings e).filter keep := by
  cases he : p.marks settings e <;> cases he' : p.marks settings e' <;>
    simp_all [marksOf, Except.map]

theorem find?_name {files files' : List SourceFile}
    (h : List.Forall₂ (fun f f' => (Node.file f).Wrapped fixed (.file f')) files files')
    (id : FileId) :
    (files'.find? (·.id = id)).map (·.name) = (files.find? (·.id = id)).map (·.name) := by
  induction h with
  | nil => rfl
  | cons hf _ ih =>
    obtain ⟨_, ⟨⟩, hid, hname, _⟩ := (hf.alike nofun).file
    simp only [List.find?_cons, hid]
    split
    · simp [hname]
    · exact ih

namespace Wrapped

variable (h : p.Wrapped fixed files')
include h

/-- What a walk over all files gathers. -/
theorem flatMap_walk {β : Type} {enter : Node → Bool} {own : Node → List β}
    (entered : ∀ e type, enter (.expr ⟨.paren e, type⟩) = true)
    (silent : ∀ e type, own (.expr ⟨.paren e, type⟩) = [])
    (headed : ∀ n n' : Node, n'.head = n.head → enter n' = enter n)
    (same : ∀ n n' : Node, n.Alike fixed n' → own n' = own n) :
    (files'.flatMap fun f => ((Node.file f).walk enter).flatMap own) =
      p.files.flatMap fun f => ((Node.file f).walk enter).flatMap own :=
  flatMap_eq_of_forall₂ (h.imp fun _ _ hf => hf.flatMap_walk entered silent headed same)

theorem declaredObjects : (p.withFiles files').declaredObjects = p.declaredObjects := by
  simp only [Program.declaredObjects, List.filterMap_eq_flatMap_toList, files_withFiles]
  refine h.flatMap_walk (fun _ _ => rfl) (fun _ _ => rfl) (fun _ _ => Node.isSearched_of_head) ?_
  intro n n' halike
  rw [halike.defined?]

theorem collect : (p.withFiles files').collect settings = p.collect settings := by
  rw [Program.collect_def, Program.collect_def, h.declaredObjects, isTrackable_withFiles]

/-- What all expressions give, if parentheses give nothing. -/
theorem exprs_flatMap {β : Type} {own : Expr → List β}
    (silent : ∀ e type, own ⟨.paren e, type⟩ = [])
    (same : ∀ e e' : Expr, (Node.expr e).Alike fixed (.expr e') → own e' = own e) :
    (p.withFiles files').exprs.flatMap own = p.exprs.flatMap own := by
  rw [Program.exprs_flatMap, Program.exprs_flatMap, files_withFiles]
  refine h.flatMap_walk (fun _ _ => rfl) ?_ (fun _ _ _ => rfl) ?_
  · intro e type
    simpa [Node.expr?] using silent e type
  · intro n n' halike
    cases n with
    | expr e =>
      obtain ⟨e', rfl, _⟩ := halike.expr
      simpa [Node.expr?] using same e e' halike
    | _ =>
      rw [halike.expr?_none rfl]
      rfl

theorem fileName : (p.withFiles files').fileName = p.fileName := by
  funext pos
  have hname := find?_name h pos.file
  rw [Program.fileName, Program.fileName, files_withFiles]
  cases hfile : p.files.find? (·.id = pos.file) <;>
    cases hfile' : files'.find? (·.id = pos.file) <;> simp_all

theorem place : (p.withFiles files').place = p.place := by
  funext object
  simp [Program.place, h.fileName]

theorem mentions {r : Reference} (hr : (p.withFiles files').Mentions r) : p.Mentions r := by
  cases hr with
  | analyzed => exact .analyzed
  | type hform hr => exact .type hform hr
  | object hobject hr => exact .object hobject hr
  | node hcontains hr =>
    obtain ⟨file', hfile', hpart'⟩ := hcontains
    obtain ⟨file, hfile, hwrapped⟩ := exists_of_forall₂ h hfile'
    obtain ⟨part, hpart, hr⟩ := hwrapped.mentions _ (Node.mem_all.mpr hpart') hr
    exact .node ⟨file, hfile, Node.mem_all.mp hpart⟩ hr

/-- Parentheses make no defect. -/
theorem valid (valid : p.defect? = none) : (p.withFiles files').defect? = none := by
  obtain ⟨hpackage, hdangling, hunfounded, hparts, hembeds⟩ := defect?_none_iff.mp valid
  have hresolved := (dangling?_eq_none hpackage).mp hdangling
  have hpackage' : (p.withFiles files').package.index < (p.withFiles files').packages.size :=
    hpackage
  have hdangling' : (p.withFiles files').dangling? = none := by
    refine (dangling?_eq_none hpackage').mpr ?_
    intro r hr
    exact hresolved r (h.mentions hr)
  have hunfounded' : (p.withFiles files').unfounded? = none := by
    rw [unfounded?] at hunfounded ⊢
    rwa [underlying_withFiles]
  refine defect?_none_iff.mpr ⟨hpackage', hdangling', hunfounded', hparts, ?_⟩
  rwa [embeds_withFiles]

theorem breaches : (p.withFiles files').exprs.filterMap (p.breach? settings) =
    p.exprs.filterMap (p.breach? settings) := by
  rw [List.filterMap_eq_flatMap_toList, List.filterMap_eq_flatMap_toList]
  refine h.exprs_flatMap (fun _ _ => rfl) ?_
  intro e e' halike
  have hmarks : (p.marks settings e').map (List.filter fun _ => false) =
      (p.marks settings e).map (List.filter fun _ => false) :=
    p.marks_alike settings halike fun _ _ _ => nofun
  rw [breach?_of_map hmarks]

theorem keptMarks {keep : Mark → Bool}
    (hkeep : ∀ callee : Expr, ∀ mark ∈ callee.receiverMarks, keep mark = true → fixed callee) :
    ((p.withFiles files').exprs.flatMap (p.marksOf settings)).filter keep =
      (p.exprs.flatMap (p.marksOf settings)).filter keep := by
  rw [List.filter_flatMap, List.filter_flatMap]
  refine h.exprs_flatMap (fun _ _ => rfl) ?_
  intro e e' halike
  exact marksOf_of_map (p.marks_alike settings halike hkeep)

theorem reportM {m : Type → Type} [Evaluation m] (settings : Settings) (includeTests : Bool)
    (ledger : Ledger) :
    (p.withFiles files').reportM (m := m) settings includeTests ledger =
      p.reportM settings includeTests ledger := by
  have hscope : (p.withFiles files').isInScopeM (m := m) settings includeTests ledger =
      p.isInScopeM settings includeTests ledger := by
    funext v
    simp only [isInScopeM, objectM_withFiles, h.place]
  have hfinding : (p.withFiles files').finding = p.finding := by
    funext object kind interfaces
    simp only [finding, h.place]
  have hdiagnose : (p.withFiles files').diagnoseM (m := m) ledger = p.diagnoseM ledger := by
    funext v
    simp only [diagnoseM, requestM_withFiles, problemsM_withFiles, nameListM_withFiles,
      objectM_withFiles, package_withFiles, hfinding]
  rw [Program.reportM, Program.reportM, hscope, hdiagnose]

/-- Whether marking breaks off, and where, does not depend on parentheses. -/
theorem markUses_breach (settings : Settings) (ledger : Ledger) :
    ((p.withFiles files').markUses settings ledger).2 = (p.markUses settings ledger).2 := by
  have hbreach : (p.withFiles files').breach? settings = p.breach? settings := by
    funext e
    rw [breach?, breach?, marks_withFiles]
  rw [markUses_def, markUses_def, markExprs_breach?, markExprs_breach?, hbreach, h.breaches]

/-- Marking comes out the same if only uses of objects that are not tracked are lost. -/
theorem markUses {history : History} {ledger : Ledger} (leads : history.LeadsTo ledger)
    (hfixed : ∀ callee object, Expr.SelectsFrom callee object → history.tracks object = true →
      fixed callee) (unbroken : (p.markUses settings ledger).2 = none) :
    ((p.withFiles files').markUses settings ledger).1 = (p.markUses settings ledger).1 := by
  have hkeep : ∀ callee : Expr, ∀ mark ∈ callee.receiverMarks, history.counts mark = true →
      fixed callee := by
    intro callee mark hmark hcounts
    obtain ⟨operand, member, object, hform, hnames, rfl⟩ := Expr.mem_receiverMarks.mp hmark
    obtain ⟨form, type⟩ := callee
    cases hform
    exact hfixed _ object (.selector hnames) hcounts
  have hidle : ∀ mark, history.counts mark = false →
      ∃ object use, mark = Use.mark object use ∧ history.tracks object = false := by
    intro mark hmark
    cases mark with
    | method object name => exact ⟨object, .method name, rfl, hmark⟩
    | _ => cases hmark
  have hmarksOf : (p.withFiles files').marksOf settings = p.marksOf settings := by
    funext e
    rw [marksOf, marksOf, marks_withFiles]
  have unbroken' : ((p.withFiles files').markUses settings ledger).2 = none := by
    rw [h.markUses_breach, unbroken]
  have hrun := (markExprs_marks unbroken).2
  have hrun' := (markExprs_marks unbroken').2
  rw [Program.markUses_def, Program.markUses_def, hrun, hrun', hmarksOf,
    ← Marking.foldl_filter leads _ hidle, h.keptMarks hkeep, Marking.foldl_filter leads _ hidle]

end Wrapped

/-- Before marking, just the collected objects are tracked. -/
theorem pooled_tracks (p : Program) (settings : Settings) : ∃ history : History,
    history.LeadsTo (p.pool (p.collect settings)).1 ∧
      ∀ object, history.tracks object = true → object ∈ (p.collect settings).trackedObjects := by
  have hcollect := p.collect_leadsTo settings
  obtain ⟨shares, _, hpooled⟩ := p.pool_pooled hcollect
  refine ⟨_, hpooled.leads, ?_⟩
  intro object htracks
  rw [trackedObjects_collect, List.mem_eraseDups]
  exact History.tracks_tracked.mp (hpooled.onlyShares.tracks.mp htracks)

/-- Parentheses make no defect and no failure, and unless they are put around a callee that
selects from a tracked variable they change nothing in an analysis, not even whether it returns. -/
theorem wrapping_keeps_analysis (p : Program) (valid : p.defect? = none) (settings : Settings)
    (includeTests : Bool) (fixed : Expr → Prop) (files' : List SourceFile)
    (h : p.Wrapped fixed files') :
    (p.withFiles files').defect? = none ∧
      (∀ failure,
        (p.withFiles files').analyzeM (m := Strict) settings includeTests = .ok (.error failure) ↔
          p.analyzeM (m := Strict) settings includeTests = .ok (.error failure)) ∧
      ((∀ callee object, Expr.SelectsFrom callee object →
          object ∈ (p.collect settings).trackedObjects → fixed callee) →
        (p.withFiles files').analyzeM (m := Strict) settings includeTests =
          p.analyzeM settings includeTests) := by
  have valid' := h.valid valid
  have wf := WellFormed.of_defect? valid
  have wf' := WellFormed.of_defect? valid'
  obtain ⟨history, hleads, htracked⟩ := p.pooled_tracks settings
  rw [analyzeM_of_valid valid, analyzeM_of_valid valid', analyzeCheckedM_eq wf,
    analyzeCheckedM_eq wf', h.collect, h.poolM wf wf']
  refine ⟨valid', ?_⟩
  rcases poolM_follows wf (p.collect settings) with hpool | ⟨fault, _, hpool⟩
  · rw [hpool]
    simp only [ok_bind, h.reportM, h.markUses_breach, packageOf_withFiles, package_withFiles]
    cases hbroken : (p.markUses settings (p.pool (p.collect settings)).1).2 with
    | some breach => exact ⟨fun _ => Iff.rfl, fun _ => rfl⟩
    | none =>
      constructor
      · intro failure
        constructor <;> intro run <;> obtain ⟨_, _, hresult⟩ := bind_eq_ok.mp run <;> cases hresult
      · intro hfixed
        have hmarking := h.markUses hleads
          (fun callee object hselects hobject =>
            hfixed callee object hselects (htracked object hobject)) hbroken
        rw [hmarking]
  · rw [hpool]
    exact ⟨fun _ => Iff.rfl, fun _ => rfl⟩

/-- The parameter `ctx` of type `Env`, used as an expression. -/
def envParam : Expr :=
  ⟨.ident ⟨"ctx", ⟨⟨0⟩, 0, 0⟩, some (.uses ⟨0⟩)⟩, some ⟨6⟩⟩

/-- The callees `x.Log` and `Use`. -/
def logOf (x : Expr) : Expr :=
  ⟨.selector x ⟨"Log", ⟨⟨0⟩, 0, 0⟩, none⟩, some ⟨0⟩⟩

def useFunc : Expr :=
  ⟨.ident ⟨"Use", ⟨⟨0⟩, 0, 0⟩, none⟩, some ⟨8⟩⟩

/-- The file of `func F(ctx Env)`, which calls something without arguments and something with
one. -/
def envFiles (log use arg : Expr) : List SourceFile :=
  let param : Field := ⟨[⟨"ctx", ⟨⟨0⟩, 0, 0⟩, some (.defines ⟨0⟩)⟩], ⟨.literal "Env", some ⟨6⟩⟩⟩
  [⟨⟨0⟩, "app.go", [.func ⟨none, ⟨"F", ⟨⟨0⟩, 0, 0⟩, none⟩, ⟨[param], []⟩, some ⟨[
    .expr ⟨.call log [] false, none⟩, .expr ⟨.call use [arg] false, none⟩]⟩⟩]⟩]

/-- A package with a function `F(ctx Env)` that calls `ctx.Log()` and `Use(ctx)`, where `Env` is
`interface { context.Context; Logger }` and `Use` takes anything. -/
def loggingEnv : Program where
  package := ⟨0⟩
  packages := #[⟨"app", "app"⟩, ⟨"context", "context"⟩]
  types := #[
    .signature ⟨[], [], false⟩,
    .interface ⟨[⟨"Done", none, ⟨0⟩⟩], []⟩,
    .named ⟨"Context", some ⟨1⟩, ⟨1⟩, []⟩,
    .interface ⟨[⟨"Log", none, ⟨0⟩⟩], []⟩,
    .named ⟨"Logger", some ⟨0⟩, ⟨3⟩, []⟩,
    .interface ⟨[], [⟨2⟩, ⟨4⟩]⟩,
    .named ⟨"Env", some ⟨0⟩, ⟨5⟩, []⟩,
    .interface ⟨[], []⟩,
    .signature ⟨[⟨⟨7⟩, none⟩], [], false⟩]
  objects := #[⟨"ctx", .variable, some ⟨0⟩, some ⟨6⟩, none⟩]
  files := envFiles (logOf envParam) useFunc envParam

theorem loggingEnv_valid : loggingEnv.defect? = none := by
  decide +kernel

/-- The callees and the argument may be wrapped on their own. -/
theorem loggingEnv_wrapped {log' use' arg' : Expr}
    (hlog : (Node.expr (logOf envParam)).Wrapped fixed (.expr log'))
    (hfixed : fixed (logOf envParam) → log'.form.isParen = false)
    (huse : (Node.expr useFunc).Wrapped fixed (.expr use'))
    (hfixed' : fixed useFunc → use'.form.isParen = false)
    (harg : (Node.expr envParam).Wrapped fixed (.expr arg')) :
    loggingEnv.Wrapped fixed (envFiles log' use' arg') := by
  have hlogged : (Node.expr ⟨.call (logOf envParam) [] false, none⟩).Wrapped fixed
      (.expr ⟨.call log' [] false, none⟩) := by
    refine .inside rfl (.cons hlog .nil) ?_
    rintro _ ⟨⟩ _ ⟨⟩ hf
    exact hfixed hf
  have hused : (Node.expr ⟨.call useFunc [envParam] false, none⟩).Wrapped fixed
      (.expr ⟨.call use' [arg'] false, none⟩) := by
    refine .inside rfl (.cons huse (.cons harg .nil)) ?_
    rintro _ ⟨⟩ _ ⟨⟩ hf
    exact hfixed' hf
  have hbody : (Node.block ⟨[.expr ⟨.call (logOf envParam) [] false, none⟩,
      .expr ⟨.call useFunc [envParam] false, none⟩]⟩).Wrapped fixed
        (.block ⟨[.expr ⟨.call log' [] false, none⟩, .expr ⟨.call use' [arg'] false, none⟩]⟩) :=
    .inside rfl (.cons (.inside rfl (.cons hlogged .nil) nofun)
      (.cons (.inside rfl (.cons hused .nil) nofun) .nil)) nofun
  exact .cons (.inside rfl (.cons (.inside rfl (.cons (.inside rfl
    (.cons (.refl _) (.cons (.refl _) (.cons hbody .nil))) nofun) .nil) nofun) .nil) nofun) .nil

/-- The package with `(ctx).Log()` and `(Use)(((ctx)))`. -/
theorem loggingEnv_wrapped_same :
    loggingEnv.defect? = none ∧
      loggingEnv.analyzeM (m := Strict) .default false =
        .ok (.ok ⟨"app", [⟨"", 0, 0, "ctx", .unused, ["context.Context"]⟩],
          ⟨1, 1, 0, 2, 0, 0, 1⟩⟩) ∧
      ((loggingEnv.withFiles (envFiles (logOf ⟨.paren envParam, some ⟨6⟩⟩)
        ⟨.paren useFunc, some ⟨8⟩⟩ ⟨.paren ⟨.paren envParam, some ⟨6⟩⟩, some ⟨6⟩⟩)).analyzeM
          (m := Strict) .default false) = loggingEnv.analyzeM .default false := by
  refine ⟨loggingEnv_valid, by decide +kernel, ?_⟩
  refine (wrapping_keeps_analysis loggingEnv loggingEnv_valid .default false
    (fun callee => ∃ object, callee.SelectsFrom object ∧
      object ∈ (loggingEnv.collect .default).trackedObjects) _ ?_).2.2
    fun callee object hselects htracked => ⟨object, hselects, htracked⟩
  refine loggingEnv_wrapped ?_ (fun _ => rfl) (.paren rfl (.refl _)) ?_
    (.paren rfl (.paren rfl (.refl _)))
  · exact .inside rfl (.cons (.paren rfl (.refl _)) (.cons (.refl _) .nil)) nofun
  · rintro ⟨object, ⟨⟩, _⟩

/-- The package with `(ctx.Log)()`, where the call is not seen and the finding becomes another. -/
theorem wrapped_callee_changes_analysis :
    loggingEnv.defect? = none ∧
      loggingEnv.Wrapped (fun _ => False)
        (envFiles ⟨.paren (logOf envParam), some ⟨0⟩⟩ useFunc envParam) ∧
      loggingEnv.analyzeM (m := Strict) .default false =
        .ok (.ok ⟨"app", [⟨"", 0, 0, "ctx", .unused, ["context.Context"]⟩],
          ⟨1, 1, 0, 2, 0, 0, 1⟩⟩) ∧
      (loggingEnv.withFiles (envFiles ⟨.paren (logOf envParam), some ⟨0⟩⟩ useFunc
        envParam)).analyzeM (m := Strict) .default false =
          .ok (.ok ⟨"app", [⟨"", 0, 0, "ctx", .allUnused, []⟩], ⟨1, 1, 0, 1, 1, 0, 0⟩⟩) := by
  refine ⟨loggingEnv_valid, ?_, by decide +kernel, by decide +kernel⟩
  exact loggingEnv_wrapped (.paren rfl (.refl _)) nofun (.refl _) nofun (.refl _)

end Program

end LeastContext

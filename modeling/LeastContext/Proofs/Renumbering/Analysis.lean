import LeastContext.Proofs.Renumbering.Validity
import LeastContext.Proofs.ReportedVariables

namespace LeastContext

section Records

variable (r : TypeId → TypeId)

def Use.mapTypes : Use → Use
  | .interface type => .interface (r type)
  | use => use

theorem Use.mark_mapTypes (object : ObjectId) (use : Use) :
    (use.mark object).mapTypes r = (use.mapTypes r).mark object := by
  cases use <;> rfl

/-- A record holds the uses of another one under new handles. -/
structure Usage.Matches (usage usage' : Usage) : Prop where
  ascending : usage.Ascending
  ascending' : usage'.Ascending
  holds : ∀ use, usage'.Holds use ↔ ∃ old, usage.Holds old ∧ use = old.mapTypes r

namespace Usage.Matches

variable {r} {usage usage' : Usage}

theorem empty : Usage.Matches r .empty .empty where
  ascending := ⟨.nil, .nil⟩
  ascending' := ⟨.nil, .nil⟩
  holds := by simp [Usage.not_holds_empty]

theorem add (h : usage.Matches r usage') (use : Use) :
    (usage.add use).Matches r (usage'.add (use.mapTypes r)) where
  ascending := h.ascending.add use
  ascending' := h.ascending'.add _
  holds := by
    intro x
    rw [Usage.holds_add, h.holds]
    simp only [Usage.holds_add]
    constructor
    · intro hx
      rcases hx with rfl | ⟨old, hold, rfl⟩
      · exact ⟨use, .inl rfl, rfl⟩
      · exact ⟨old, .inr hold, rfl⟩
    · intro hx
      obtain ⟨old, rfl | hold, rfl⟩ := hx
      · exact .inl rfl
      · exact .inr ⟨old, hold, rfl⟩

theorem renames (h : usage.Matches r usage') (injective : Function.Injective r) :
    usage.Renames r usage' := by
  have irrefl : Std.Irrefl fun x y : TypeId => x.index < y.index := ⟨fun _ => Nat.lt_irrefl _⟩
  constructor
  case interfaces =>
    refine (List.perm_ext_iff_of_nodup h.ascending'.interfaces.nodup
      (h.ascending.interfaces.nodup.map injective)).mpr ?_
    intro type
    have hholds := h.holds (.interface type)
    rw [List.mem_map]
    constructor
    · intro hm
      obtain ⟨old, hold, he⟩ := hholds.mp hm
      cases old with
      | interface id => exact ⟨id, hold, (Use.interface.inj he).symm⟩
      | _ => cases he
    · intro hm
      obtain ⟨id, hid, rfl⟩ := hm
      exact hholds.mpr ⟨.interface id, hid, rfl⟩
  case methods =>
    refine h.ascending'.methods.eq_of_mem_iff h.ascending.methods ?_
    intro name
    refine (h.holds (.method name)).trans ⟨?_, fun hm => ⟨.method name, hm, rfl⟩⟩
    intro hm
    obtain ⟨old, hold, he⟩ := hm
    cases old with
    | method other => exact Use.method.inj he ▸ hold
    | _ => cases he
  case cached =>
    refine Bool.eq_iff_iff.mpr ((h.holds .cached).trans ⟨?_, fun hm => ⟨.cached, hm, rfl⟩⟩)
    intro hm
    obtain ⟨old, hold, he⟩ := hm
    cases old with
    | cached => exact hold
    | _ => cases he

end Usage.Matches

end Records

namespace Ledger

/-- A ledger with all its records emptied. -/
def blank (ledger : Ledger) : Ledger :=
  ⟨ledger.entries.map fun entry => { entry with usage := .empty }⟩

section Blank

variable (ledger : Ledger)

theorem size_blank : ledger.blank.entries.size = ledger.entries.size := by
  simp [blank]

theorem variableAt_blank (v : VarId) :
    ledger.blank.variableAt v = { ledger.variableAt v with usage := .empty } := by
  unfold variableAt blank
  by_cases hv : v.index < ledger.entries.size
  · simp [Array.getD, hv]
  · simp [Array.getD, hv]
    rfl

theorem lookup_blank (object : ObjectId) : ledger.blank.lookup object = ledger.lookup object := by
  unfold lookup blank
  rw [Array.findIdx?_map]
  rfl

theorem root_blank (v : VarId) : ledger.blank.root v = ledger.root v := by
  have hwithin : ∀ steps v, ledger.blank.rootWithin steps v = ledger.rootWithin steps v := by
    intro steps
    induction steps with
    | zero => exact fun _ => rfl
    | succ steps ih =>
      intro v
      simp only [rootWithin, variableAt_blank, ih]
  unfold root
  rw [hwithin, size_blank]

theorem active_blank : ledger.blank.active = ledger.active := by
  unfold active
  simp only [variableAt_blank, size_blank]

theorem blank_record (change : Usage → Usage) (v : VarId) :
    (ledger.record change v).blank = ledger.blank := by
  unfold record blank
  congr 1
  apply Array.ext
  · simp
  · intro i hi hi'
    simp only [Array.getElem_map, Array.getElem_modify]
    split <;> rfl

theorem blank_untrack (object : ObjectId) :
    (ledger.untrack object).blank = ledger.blank.untrack object := by
  unfold untrack
  rw [lookup_blank]
  cases ledger.lookup object with
  | none => rfl
  | some v =>
    unfold blank
    congr 1
    apply Array.ext
    · simp
    · intro i hi hi'
      simp only [Array.getElem_map, Array.getElem_modify]
      split <;> rfl

end Blank

/-- Ledgers with the same variables, the records of one under new handles. -/
structure Matches (r : TypeId → TypeId) (a b : Ledger) : Prop where
  blank : b.blank = a.blank
  records : ∀ v, (a.variableAt v).usage.Matches r (b.variableAt v).usage

namespace Matches

variable {r : TypeId → TypeId} {a b : Ledger} (h : Matches r a b)
include h

theorem lookup (object : ObjectId) : b.lookup object = a.lookup object := by
  rw [← b.lookup_blank, h.blank, a.lookup_blank]

theorem root (v : VarId) : b.root v = a.root v := by
  rw [← b.root_blank, h.blank, a.root_blank]

theorem active : b.active = a.active := by
  rw [← b.active_blank, h.blank, a.active_blank]

theorem object (v : VarId) : (b.variableAt v).object = (a.variableAt v).object := by
  have hblank := congrArg (fun ledger => (ledger.variableAt v).object) h.blank
  simpa [variableAt_blank] using hblank

theorem recordCount : b.recordCount = a.recordCount := by
  have hroot : b.root = a.root := funext h.root
  unfold Ledger.recordCount
  rw [h.active, hroot]

theorem usage (v : VarId) : (a.usage v).Matches r (b.usage v) := by
  unfold Ledger.usage
  rw [h.root]
  exact h.records _

theorem record (use : Use) (v : VarId) :
    Matches r (a.record (·.add use) v) (b.record (·.add (use.mapTypes r)) v) where
  blank := by rw [blank_record, blank_record, h.blank]
  records := by
    intro w
    have hsize : b.entries.size = a.entries.size := by
      rw [← b.size_blank, h.blank, a.size_blank]
    unfold Ledger.record
    rw [variableAt_modify, variableAt_modify, h.root, hsize]
    split
    · exact (h.records w).add use
    · exact h.records w

theorem untrack (object : ObjectId) : Matches r (a.untrack object) (b.untrack object) where
  blank := by rw [blank_untrack, blank_untrack, h.blank]
  records := by
    intro v
    rw [(untrack_frame object v).2, (untrack_frame object v).2]
    exact h.records v

end Matches

/-- No record holds anything yet. -/
def Unused (ledger : Ledger) : Prop :=
  ∀ v, (ledger.variableAt v).usage = .empty

theorem Unused.track {ledger : Ledger} (h : ledger.Unused) (object : ObjectId) :
    (ledger.track object).Unused := by
  unfold Ledger.track
  split
  · exact h
  · intro v
    rw [variableAt_push]
    split
    · rfl
    · exact h v

theorem Unused.modify {ledger : Ledger} (h : ledger.Unused) (i : Nat) {change : Variable → Variable}
    (keeps : ∀ entry, entry.usage = .empty → (change entry).usage = .empty) :
    Unused ⟨ledger.entries.modify i change⟩ := by
  intro v
  rw [variableAt_modify]
  split
  · exact keeps _ (h v)
  · exact h v

theorem Unused.share {ledger : Ledger} (h : ledger.Unused) (a b : VarId) :
    (ledger.share a b).Unused := by
  unfold Ledger.share
  simp only
  split
  · exact h
  · have absorbed : Unused ⟨ledger.entries.modify (ledger.root a).index fun entry =>
        { entry with
          usage := entry.usage.merge (ledger.variableAt (ledger.root b)).usage }⟩ := by
      refine h.modify _ ?_
      intro entry hentry
      rw [hentry, h]
      rfl
    refine absorbed.modify _ ?_
    intro _ _
    rfl

end Ledger

theorem Pool.add_unused {pool : Pool} (h : pool.ledger.Unused) (entry : MethodKey × VarId) :
    (pool.add entry).ledger.Unused := by
  obtain ⟨key, v⟩ := entry
  simp only [Pool.add]
  split
  · exact h
  · exact h.share _ v

/-- Before marking no record holds anything. -/
theorem Program.pool_unused (p : Program) (settings : Settings) :
    (p.pool (p.collect settings)).1.Unused := by
  have hcollect : (p.collect settings).Unused := by
    rw [collect_def]
    refine List.foldlRecOn _ _ (motive := Ledger.Unused) (fun _ => rfl) ?_
    intro ledger hledger object _
    exact hledger.track object
  have hpool :
      (p.packageInterfaces.foldl p.poolInterface ⟨p.collect settings, [], 0⟩).ledger.Unused := by
    refine List.foldlRecOn _ _ (motive := fun pool : Pool => pool.ledger.Unused) hcollect ?_
    intro pool hpool interface _
    refine List.foldlRecOn _ Pool.add (motive := fun pool : Pool => pool.ledger.Unused) hpool ?_
    intro pool hpool entry _
    exact Pool.add_unused hpool entry
  rw [pool_def]
  exact hpool

/-- Two states of marking that are alike. -/
structure Marking.Matches (r : TypeId → TypeId) (a b : Marking) : Prop where
  ledger : a.ledger.Matches r b.ledger
  uses : b.uses = a.uses

namespace Marking.Matches

variable {r : TypeId → TypeId} {a b : Marking}

theorem apply (h : Matches r a b) (mark : Mark) :
    Matches r (a.apply mark) (b.apply (mark.mapTypes r)) := by
  rcases mark_cases mark with ⟨object, use, rfl⟩ | ⟨object, rfl⟩
  · rw [Use.mark_mapTypes]
    have hlookup := h.ledger.lookup object
    cases hl : a.ledger.lookup object with
    | none =>
      rw [hl] at hlookup
      rw [apply_untracked hl, apply_untracked hlookup]
      exact h
    | some v =>
      rw [hl] at hlookup
      constructor
      · rw [apply_tracked hl, apply_tracked hlookup]
        exact h.ledger.record use v
      · cases use <;> simp [Marking.apply, Use.mark, Use.mapTypes, hl, hlookup, h.uses]
  · exact ⟨h.ledger.untrack object, h.uses⟩

theorem applyAll (h : Matches r a b) (marks : List Mark) :
    Matches r (marks.foldl Marking.apply a)
      ((marks.map (Mark.mapTypes r)).foldl Marking.apply b) := by
  induction marks generalizing a b with
  | nil => exact h
  | cons mark marks ih => exact ih (h.apply mark)

end Marking.Matches

theorem Object.name_mapTypes (r : TypeId → TypeId) (object : Object) :
    (object.mapTypes r).name = object.name := rfl

/-- A finding tells the kind of the problem, and the names of types and not their handles. -/
theorem Program.diagnose?_eq (p : Program) (ledger : Ledger) (v : VarId) :
    p.diagnose? ledger v =
      (p.request? (ledger.variableAt v).object).bind fun request =>
        ((p.problems request (ledger.usage v)).primary.map fun problem =>
          (problem.1, p.nameList (some p.package) problem.2)).map fun problem =>
            ⟨(p.place (p.objectAt ledger v)).1, (p.place (p.objectAt ledger v)).2.1,
              (p.place (p.objectAt ledger v)).2.2, (p.objectAt ledger v).name, problem.1,
              problem.2⟩ := by
  rw [diagnose?_def]
  congr 1
  funext request
  cases (p.problems request (ledger.usage v)).primary <;> rfl

namespace Program.Renames

variable {r : TypeId → TypeId} {p p' : Program} (h : Renames r p p')
include h

/-- Marking goes through the same expressions, up to the same breach. -/
theorem markExprs (settings : Settings) (exprs : List Expr) {a b : Marking} (hm : a.Matches r b) :
    (p.markExprs settings a exprs).1.Matches r
        (p'.markExprs settings b (exprs.map (Expr.mapTypes r))).1 ∧
      (p'.markExprs settings b (exprs.map (Expr.mapTypes r))).2 =
        (p.markExprs settings a exprs).2 := by
  induction exprs generalizing a b with
  | nil => exact ⟨hm, rfl⟩
  | cons e exprs ih =>
    simp only [List.map_cons, Program.markExprs_cons, h.marks]
    cases p.marks settings e with
    | error breach => exact ⟨hm, rfl⟩
    | ok marks => exact ih (hm.applyAll marks)

theorem markUses (settings : Settings) :
    (p.markUses settings (p.pool (p.collect settings)).1).1.Matches r
        (p'.markUses settings (p.pool (p.collect settings)).1).1 ∧
      (p'.markUses settings (p.pool (p.collect settings)).1).2 =
        (p.markUses settings (p.pool (p.collect settings)).1).2 := by
  have hstart : (p.pool (p.collect settings)).1.Matches r (p.pool (p.collect settings)).1 := by
    refine ⟨rfl, fun v => ?_⟩
    rw [p.pool_unused settings v]
    exact .empty
  rw [Program.markUses_def, Program.markUses_def]
  rw [h.exprs]
  exact h.markExprs settings p.exprs ⟨hstart, rfl⟩

theorem place (object : Object) : p'.place (object.mapTypes r) = p.place object := by
  have hfile : ∀ pos, p'.fileName pos = p.fileName pos := by
    intro pos
    have hfind : p'.files.find? (·.id = pos.file) =
        (p.files.find? (·.id = pos.file)).map (SourceFile.mapTypes r) := by
      rw [h.files, List.find?_map]
      rfl
    unfold Program.fileName
    rw [hfind]
    cases p.files.find? (·.id = pos.file) <;> rfl
  unfold Program.place Object.mapTypes
  cases object.pos with
  | none => rfl
  | some pos => simp only [hfile]

theorem objectAt {ledger ledger' : Ledger} (hl : ledger.Matches r ledger') (v : VarId) :
    p'.objectAt ledger' v = (p.objectAt ledger v).mapTypes r := by
  unfold Program.objectAt
  rw [hl.object, h.object]

theorem diagnose? {ledger ledger' : Ledger} (hl : ledger.Matches r ledger') (v : VarId) :
    p'.diagnose? ledger' v = p.diagnose? ledger v := by
  rw [Program.diagnose?_eq, Program.diagnose?_eq, h.objectAt hl, hl.object, h.request?, h.place,
    h.package]
  cases p.request? (ledger.variableAt v).object with
  | none => rw [Option.map_none, Option.bind_none, Option.bind_none]
  | some request =>
    have hprimary := h.primary (some p.package) request ((hl.usage v).renames h.injective)
    rw [Option.map_some, Option.bind_some, Option.bind_some, hprimary, Object.name_mapTypes]

/-- The findings are the same, in the same order. -/
theorem report (settings : Settings) (includeTests : Bool) {ledger ledger' : Ledger}
    (hl : ledger.Matches r ledger') :
    p'.report settings includeTests ledger' = p.report settings includeTests ledger := by
  have hscope : p'.isInScope settings includeTests ledger' =
      p.isInScope settings includeTests ledger := by
    funext v
    rw [Program.isInScope_def, Program.isInScope_def]
    rw [hl.object, h.object, h.place]
  rw [Program.report_def, Program.report_def]
  rw [hl.active, hscope, funext (h.diagnose? hl)]

theorem outcome (settings : Settings) (includeTests : Bool) :
    p'.outcome settings includeTests = p.outcome settings includeTests := by
  obtain ⟨⟨hledger, huses⟩, -⟩ := h.markUses settings
  unfold Program.outcome Program.markedLedger Analysis.of Ledger.size
  simp only [h.collect, h.pool, h.report settings includeTests hledger, huses, hledger.active,
    hledger.recordCount, h.packageOf, h.package]

theorem settles (settled : ∀ a b, p.Settles a b) (a b : TypeId) : p'.Settles a b := by
  obtain ⟨a, rfl⟩ := h.surjective a
  obtain ⟨b, rfl⟩ := h.surjective b
  obtain ⟨depth, same, answered⟩ := settled a b
  exact ⟨depth, same, (h.identicalWithin depth a b).trans answered⟩

end Program.Renames

namespace Program

/-- Type handles are only names. With its types in another order, and every handle of a type changed
along, a valid program stays valid, and its analysis comes to the same: to the same failure, or to
the same findings in the same order and the same counts. So runs that end, end the same, and both
end if every comparison does. -/
theorem type_handles_are_only_names (p : Program) (valid : p.defect? = none)
    (σ : Equiv.Perm (Fin p.types.size)) (settings : Settings) (includeTests : Bool) :
    (p.renumbered σ).defect? = none ∧
      (p.renumbered σ).analyze settings includeTests = p.analyze settings includeTests ∧
      (∀ result result', p.analyzeM (m := Strict) settings includeTests = .ok result →
        (p.renumbered σ).analyzeM (m := Strict) settings includeTests = .ok result' →
          result' = result) ∧
      ((∀ a b, p.Settles a b) →
        ∃ result, p.analyzeM (m := Strict) settings includeTests = .ok result ∧
          (p.renumbered σ).analyzeM (m := Strict) settings includeTests = .ok result) := by
  have h := p.renumbered_renames σ
  have valid' : (p.renumbered σ).defect? = none :=
    (h.wellFormed (WellFormed.of_defect? valid)).defect?
  have same : (p.renumbered σ).analyze settings includeTests = p.analyze settings includeTests := by
    rw [analyze_eq, analyze_eq, valid, valid', h.collect, h.pool, (h.markUses settings).2,
      h.outcome]
  have follows := p.analyzeM_follows settings includeTests
  have follows' := (p.renumbered σ).analyzeM_follows settings includeTests
  rw [same] at follows'
  refine ⟨valid', same, ?_, ?_⟩
  · intro result result' run run'
    rw [follows.eq_of_ok run, follows'.eq_of_ok run']
  · intro settled
    exact ⟨_, ok_of_settled settled follows, ok_of_settled (h.settles settled) follows'⟩

/-- A handler takes what another package has put together, and hands it on to a function that logs
and to one that counts. -/
def kitHandler : Program where
  package := ⟨0⟩
  packages := #[⟨"app", "app"⟩, ⟨"context", "context"⟩, ⟨"kit", "kit"⟩]
  types := #[
    .signature ⟨[], [], false⟩,
    .interface ⟨[⟨"Done", none, ⟨0⟩⟩], []⟩,
    .named ⟨"Context", some ⟨1⟩, ⟨1⟩, []⟩,
    .interface ⟨[⟨"Log", none, ⟨0⟩⟩], []⟩,
    .named ⟨"Logger", some ⟨0⟩, ⟨3⟩, []⟩,
    .interface ⟨[⟨"Count", none, ⟨0⟩⟩], []⟩,
    .named ⟨"Meter", some ⟨0⟩, ⟨5⟩, []⟩,
    .interface ⟨[], [⟨2⟩, ⟨4⟩, ⟨6⟩]⟩,
    .named ⟨"Kit", some ⟨2⟩, ⟨7⟩, []⟩,
    .signature ⟨[⟨⟨4⟩, none⟩], [], false⟩,
    .signature ⟨[⟨⟨6⟩, none⟩], [], false⟩]
  objects := #[
    ⟨"ctx", .variable, some ⟨0⟩, some ⟨8⟩, some ⟨⟨0⟩, 3, 13⟩⟩,
    ⟨"write", .func, some ⟨0⟩, some ⟨9⟩, none⟩,
    ⟨"count", .func, some ⟨0⟩, some ⟨10⟩, none⟩]
  files :=
    let name text binding : Ident := ⟨text, ⟨⟨0⟩, 0, 0⟩, binding⟩
    let use text object type : Expr := ⟨.ident (name text (some (.uses ⟨object⟩))), some ⟨type⟩⟩
    let call callee : Stmt := .expr ⟨.call callee [use "ctx" 0 8] false, none⟩
    [⟨⟨0⟩, "main.go", [.func ⟨none, name "handle" none,
      ⟨[⟨[name "ctx" (some (.defines ⟨0⟩))], ⟨.ident (name "Kit" none), some ⟨8⟩⟩⟩], []⟩,
      some ⟨[call (use "write" 1 9), call (use "count" 2 10)]⟩⟩]⟩]

/-- Uses are recorded by handle. With the handles of two used interfaces exchanged they are recorded
the other way round, and the finding still lists them by name. -/
theorem kitHandler_exchanged :
    let logger : Fin kitHandler.types.size := ⟨4, by decide⟩
    let meter : Fin kitHandler.types.size := ⟨6, by decide⟩
    let exchanged := kitHandler.renumbered (Equiv.swap logger meter)
    (kitHandler.markedLedger .default).usage ⟨0⟩ = ⟨[⟨4⟩, ⟨6⟩], [], false⟩ ∧
      (exchanged.markedLedger .default).usage ⟨0⟩ = ⟨[⟨4⟩, ⟨6⟩], [], false⟩ ∧
      (kitHandler.named? ⟨4⟩).map (·.name) = some "Logger" ∧
      (exchanged.named? ⟨4⟩).map (·.name) = some "Meter" ∧
      ∃ analysis, kitHandler.analyzeM (m := Strict) .default true = .ok (.ok analysis) ∧
        exchanged.analyzeM (m := Strict) .default true = .ok (.ok analysis) ∧
        analysis.diagnostics =
          [⟨"main.go", 3, 13, "ctx", .unrequested, ["Logger", "Meter"]⟩] := by
  have valid : kitHandler.defect? = none := by decide +kernel
  have run : kitHandler.analyzeM (m := Strict) .default true =
      .ok (.ok (kitHandler.outcome .default true)) :=
    analyzeM_eq_ok.mpr ⟨analyze_eq_ok.mpr ⟨valid, by decide +kernel, rfl⟩, by decide +kernel,
      by decide +kernel⟩
  refine ⟨by decide +kernel, by decide +kernel, by decide +kernel, by decide +kernel, _, run,
    ?_, ?_⟩
  · have returns : Strict.Returns ((kitHandler.renumbered (Equiv.swap ⟨4, by decide⟩
        ⟨6, by decide⟩)).analyzeM .default true) := by
      decide +kernel
    obtain ⟨result, run'⟩ := returns
    rw [run', (type_handles_are_only_names kitHandler valid _ .default true).2.2.1 _ _ run run']
  · have hnames : kitHandler.nameList (some ⟨0⟩) [⟨4⟩, ⟨6⟩] = ["Logger", "Meter"] := by
      have hsorted : List.mergeSort ["Logger", "Meter"] (fun a b => decide (a ≤ b)) =
          ["Logger", "Meter"] := List.mergeSort_of_pairwise (by decide +kernel)
      have hwritten : (([⟨4⟩, ⟨6⟩] : List TypeId).flatMap (kitHandler.expand (some ⟨0⟩))).map
          (kitHandler.shortName (some ⟨0⟩)) = ["Logger", "Meter"] := by
        decide +kernel
      rw [nameList_def]
      simp only [hwritten, hsorted]
      decide
    have hfinds : kitHandler.Finds (kitHandler.markedLedger .default) ⟨0⟩
        ⟨"main.go", 3, 13, "ctx", .unrequested, ["Logger", "Meter"]⟩ :=
      ⟨⟨⟨8⟩, [⟨4⟩, ⟨6⟩], by decide +kernel, by decide +kernel, hnames.symm⟩, by decide +kernel,
        by decide +kernel⟩
    have hactive : (kitHandler.markedLedger .default).active = [⟨0⟩] := by decide +kernel
    simp [report_eq, reportedFindings, findings, hactive, finds_iff.mpr hfinds]

end Program

end LeastContext

import LeastContext.Proofs.CollectedVariables
import LeastContext.Proofs.Lists
import LeastContext.Proofs.MarkedUses
import LeastContext.Proofs.ReportedVariables

namespace LeastContext

/-- A record is determined by what it holds. -/
theorem Usage.Ascending.ext {a b : Usage} (ha : a.Ascending) (hb : b.Ascending)
    (h : ∀ use, a.Holds use ↔ b.Holds use) : a = b := by
  have antisymm : Std.Antisymm fun x y : TypeId => x.index < y.index :=
    ⟨fun _ _ hxy hyx => absurd hxy (Nat.lt_asymm hyx)⟩
  have irrefl : Std.Irrefl fun x y : TypeId => x.index < y.index := ⟨fun _ => Nat.lt_irrefl _⟩
  have hinterfaces : a.interfaces = b.interfaces :=
    ha.interfaces.eq_of_mem_iff hb.interfaces fun type => h (.interface type)
  have hmethods : a.methods = b.methods :=
    ha.methods.eq_of_mem_iff hb.methods fun name => h (.method name)
  have hcached : a.cached = b.cached := Bool.eq_iff_iff.mpr (h .cached)
  cases a
  cases b
  simp_all

namespace Ledger

variable {ledger : Ledger} {history : History} {object other : ObjectId} {v : VarId}

/-- Both objects are tracked, and they have one record. -/
def SharesRecord (ledger : Ledger) (object other : ObjectId) : Prop :=
  ∃ v w, ledger.lookup object = some v ∧ ledger.lookup other = some w ∧
    ledger.root v = ledger.root w

/-- The record of an object, an empty one if it is not tracked. -/
def recordOf (ledger : Ledger) (object : ObjectId) : Usage :=
  (ledger.lookup object).elim .empty ledger.usage

/-- The variable that keeps the record of an object. -/
def keeperOf (ledger : Ledger) (object : ObjectId) : VarId :=
  (ledger.lookup object).elim default ledger.root

theorem sharesRecord_self : ledger.SharesRecord object object ↔
    ∃ v, ledger.lookup object = some v := by
  constructor
  · intro h
    obtain ⟨v, _, hv, _⟩ := h
    exact ⟨v, hv⟩
  · intro h
    obtain ⟨v, hv⟩ := h
    exact ⟨v, v, hv, hv, rfl⟩

theorem lookup_of_active (h : history.LeadsTo ledger) (hv : v ∈ ledger.active) :
    ledger.lookup (ledger.variableAt v).object = some v := by
  obtain ⟨object, hnewest, htracks⟩ := h.follows.mem_active_iff.mp hv
  have hobject := h.follows.object v (mem_active.mp hv).1
  rw [hnewest.1] at hobject
  rw [← Option.some.inj hobject]
  exact h.follows.lookup_iff.mpr ⟨hnewest, htracks⟩

theorem mem_trackedObjects_iff (h : history.LeadsTo ledger) :
    object ∈ ledger.trackedObjects ↔ ledger.SharesRecord object object := by
  rw [sharesRecord_self, trackedObjects, List.mem_map]
  constructor
  · intro htracked
    obtain ⟨v, hv, rfl⟩ := htracked
    exact ⟨v, lookup_of_active h hv⟩
  · intro hfound
    obtain ⟨v, hv⟩ := hfound
    obtain ⟨hin, hactive, hobject⟩ := lookup_some hv
    exact ⟨v, mem_active.mpr ⟨hin, hactive⟩, hobject⟩

theorem trackedObjects_nodup (h : history.LeadsTo ledger) : ledger.trackedObjects.Nodup := by
  refine List.Nodup.map_on ?_ ledger.active_nodup
  intro v hv w hw hobject
  have hlookup := lookup_of_active h hv
  rw [hobject, lookup_of_active h hw] at hlookup
  exact (Option.some.inj hlookup).symm

theorem recordOf_active (h : history.LeadsTo ledger) (hv : v ∈ ledger.active) :
    ledger.recordOf (ledger.variableAt v).object = ledger.usage v := by
  rw [recordOf, lookup_of_active h hv]
  rfl

/-- Ledgers that say the same of all objects. -/
structure Agree (a b : Ledger) : Prop where
  shared : ∀ object other, a.SharesRecord object other ↔ b.SharesRecord object other
  records : ∀ object, a.recordOf object = b.recordOf object

namespace Agree

variable {a b : Ledger} {past past' : History}

theorem tracked (h : Agree a b) (ha : past.LeadsTo a) (hb : past'.LeadsTo b) :
    a.trackedObjects.Perm b.trackedObjects := by
  refine (List.perm_ext_iff_of_nodup (trackedObjects_nodup ha) (trackedObjects_nodup hb)).mpr ?_
  intro object
  rw [mem_trackedObjects_iff ha, mem_trackedObjects_iff hb, h.shared]

theorem size_eq (h : Agree a b) (ha : past.LeadsTo a) (hb : past'.LeadsTo b) :
    a.size = b.size := by
  have hlength := (h.tracked ha hb).length_eq
  rwa [trackedObjects, trackedObjects, List.length_map, List.length_map] at hlength

end Agree

/-- The records are as many as the keepers that the tracked objects have. -/
theorem recordCount_eq_keepers (h : history.LeadsTo ledger) :
    ledger.recordCount = (ledger.trackedObjects.map ledger.keeperOf).eraseDups.length := by
  rw [recordCount, trackedObjects, List.map_map]
  refine length_eraseDups_map (.refl _) ?_
  intro v hv w hw
  simp [keeperOf, lookup_of_active h hv, lookup_of_active h hw]

theorem sharesRecord_iff_keepers (h : history.LeadsTo ledger)
    (hobject : object ∈ ledger.trackedObjects) (hother : other ∈ ledger.trackedObjects) :
    ledger.SharesRecord object other ↔ ledger.keeperOf object = ledger.keeperOf other := by
  obtain ⟨v, hv⟩ := sharesRecord_self.mp ((mem_trackedObjects_iff h).mp hobject)
  obtain ⟨w, hw⟩ := sharesRecord_self.mp ((mem_trackedObjects_iff h).mp hother)
  simp [SharesRecord, keeperOf, hv, hw]

theorem Agree.recordCount_eq {a b : Ledger} {past past' : History} (h : Agree a b)
    (ha : past.LeadsTo a) (hb : past'.LeadsTo b) : a.recordCount = b.recordCount := by
  have hperm := h.tracked ha hb
  rw [recordCount_eq_keepers ha, recordCount_eq_keepers hb]
  refine length_eraseDups_map hperm ?_
  intro object hobject other hother
  rw [← sharesRecord_iff_keepers ha hobject hother, h.shared,
    sharesRecord_iff_keepers hb (hperm.mem_iff.mp hobject) (hperm.mem_iff.mp hother)]

end Ledger

namespace Program

open Strict

variable {p : Program} {settings : Settings} {history : History} {ledger : Ledger}

/-- The finding about an object with a given record, if there is one. -/
def finding? (p : Program) (id : ObjectId) (usage : Usage) : Option Diagnostic :=
  (p.request? id).bind fun request =>
    (p.problems request usage).primary.map fun problem =>
      p.finding (p.object id) problem.1 (p.nameList (some p.package) problem.2)

/-- Whether an object is reported on. -/
def objectInScope (p : Program) (settings : Settings) (includeTests : Bool) (id : ObjectId) :
    Bool :=
  includeTests || !settings.isTestFile (p.place (p.object id)).1

/-- A report is made of findings about tracked objects. -/
theorem report_eq_findings (p : Program) (settings : Settings) (includeTests : Bool)
    (h : history.LeadsTo ledger) :
    p.report settings includeTests ledger =
      ((ledger.trackedObjects.filter (p.objectInScope settings includeTests)).filterMap
        fun id => p.finding? id (ledger.recordOf id)).mergeSort Diagnostic.notAfter := by
  rw [report_def, Ledger.trackedObjects, List.filter_map, List.filterMap_map]
  congr 1
  refine List.filterMap_congr ?_
  intro v hv
  have hactive := (List.mem_filter.mp hv).1
  rw [Function.comp_apply, Ledger.recordOf_active h hactive, diagnose?_def, finding?]

/-- A report returns if the verdicts on the tracked objects in scope do. -/
theorem reportM_returns_objects (wf : p.WellFormed) (settings : Settings) (includeTests : Bool)
    (h : history.LeadsTo ledger) (resolved : ledger.Resolves p) :
    Returns (p.reportM settings includeTests ledger) ↔
      ∀ id ∈ ledger.trackedObjects, p.objectInScope settings includeTests id = true →
        ∀ request, p.request? id = some request →
          Returns (p.problemsM request (ledger.recordOf id)) := by
  rw [reportM_returns wf settings includeTests resolved, Ledger.trackedObjects,
    List.forall_mem_map]
  refine forall₂_congr fun v hv => ?_
  rw [Ledger.recordOf_active h hv, isInScope_def, objectInScope]

end Program

end LeastContext

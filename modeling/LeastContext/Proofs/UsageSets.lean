import LeastContext.Usage
import Mathlib.Order.Basic
import Mathlib.Data.String.Basic

namespace LeastContext

/-- One way in which a variable can be used. -/
inductive Use where
  | interface (type : TypeId)
  | method (name : String)
  | cached
  deriving DecidableEq

theorem mem_insertAscending {α : Type} [DecidableEq α] {before : α → α → Bool} {x y : α}
    {ys : List α} : y ∈ insertAscending before x ys ↔ y = x ∨ y ∈ ys := by
  induction ys with
  | nil => simp [insertAscending]
  | cons z zs ih =>
    rw [insertAscending]
    split
    · rename_i hz
      simp [hz]
    · split
      · simp
      · simp only [List.mem_cons, ih]
        tauto

theorem insertAscending_pairwise {α : Type} [DecidableEq α] (before : α → α → Bool) (x : α)
    (ys : List α)
    (trans : ∀ x y z, before x y = true → before y z = true → before x z = true)
    (total : ∀ x y, x ≠ y → before x y = false → before y x = true)
    (h : ys.Pairwise (before · · = true)) :
    (insertAscending before x ys).Pairwise (before · · = true) := by
  induction ys with
  | nil => simp [insertAscending]
  | cons y ys ih =>
    obtain ⟨hy, hys⟩ := List.pairwise_cons.mp h
    rw [insertAscending]
    split
    · exact h
    · rename_i hne
      split
      · rename_i hlt
        refine List.pairwise_cons.mpr ⟨?_, h⟩
        intro z hz
        rcases List.mem_cons.mp hz with rfl | hz
        · exact hlt
        · exact trans x y z hlt (hy z hz)
      · rename_i hge
        refine List.pairwise_cons.mpr ⟨?_, ih hys⟩
        intro z hz
        rcases mem_insertAscending.mp hz with rfl | hz
        · exact total z y hne (by simpa using hge)
        · exact hy z hz

namespace Usage

def add (use : Use) (usage : Usage) : Usage :=
  match use with
  | .interface type => usage.addInterface type
  | .method name => usage.addMethod name
  | .cached => usage.setCached true

def Holds (usage : Usage) : Use → Prop
  | .interface type => type ∈ usage.interfaces
  | .method name => name ∈ usage.methods
  | .cached => usage.cached = true

structure Ascending (usage : Usage) : Prop where
  interfaces : usage.interfaces.Pairwise (·.index < ·.index)
  methods : usage.methods.Pairwise (· < ·)

theorem not_holds_empty (use : Use) : ¬ Usage.empty.Holds use := by
  cases use <;> simp [Holds, empty]

theorem eq_empty {usage : Usage} (h : ∀ use, ¬ usage.Holds use) : usage = .empty := by
  have interfaces : usage.interfaces = [] :=
    List.eq_nil_iff_forall_not_mem.mpr fun type => h (.interface type)
  have methods : usage.methods = [] :=
    List.eq_nil_iff_forall_not_mem.mpr fun name => h (.method name)
  have cached : usage.cached = false := Bool.eq_false_iff.mpr (h .cached)
  cases usage
  simp_all [empty]

theorem holds_add {use other : Use} {usage : Usage} :
    (usage.add use).Holds other ↔ other = use ∨ usage.Holds other := by
  cases use <;> cases other <;>
    simp [add, Holds, addInterface, addMethod, setCached, mem_insertAscending]

theorem Ascending.add {usage : Usage} (h : usage.Ascending) (use : Use) :
    (usage.add use).Ascending := by
  cases use with
  | interface type =>
    refine ⟨?_, h.methods⟩
    have hi := insertAscending_pairwise (fun a b => decide (a.index < b.index)) type
      usage.interfaces (by simp only [decide_eq_true_eq]; omega)
      (by
        intro x y hne hge
        have : x.index ≠ y.index := fun he => hne (by cases x; cases y; simpa using he)
        simp only [decide_eq_false_iff_not] at hge
        simp only [decide_eq_true_eq]
        omega)
      (by simpa using h.interfaces)
    simpa [Usage.add, addInterface] using hi
  | method name =>
    refine ⟨h.interfaces, ?_⟩
    have hi := insertAscending_pairwise (fun a b => decide (a < b)) name usage.methods
      (by simpa only [decide_eq_true_eq] using fun x y z => lt_trans)
      (by
        intro x y hne hge
        simp only [decide_eq_false_iff_not] at hge
        simpa using lt_of_le_of_ne (not_lt.mp hge) hne.symm)
      (by simpa using h.methods)
    simpa [Usage.add, addMethod] using hi
  | cached => exact ⟨h.interfaces, h.methods⟩

/-- The uses a record holds, as a list. -/
def uses (usage : Usage) : List Use :=
  usage.interfaces.map .interface ++ usage.methods.map .method ++
    if usage.cached then [.cached] else []

theorem mem_uses {usage : Usage} {use : Use} : use ∈ usage.uses ↔ usage.Holds use := by
  cases use <;> simp [uses, Holds]

theorem holds_addAll {more : List Use} {usage : Usage} {use : Use} :
    (more.foldl (fun u x => u.add x) usage).Holds use ↔ use ∈ more ∨ usage.Holds use := by
  induction more generalizing usage with
  | nil => simp
  | cons x more ih =>
    rw [List.foldl_cons, ih, holds_add, List.mem_cons]
    tauto

theorem Ascending.addAll {more : List Use} {usage : Usage} (h : usage.Ascending) :
    (more.foldl (fun u x => u.add x) usage).Ascending := by
  induction more generalizing usage with
  | nil => exact h
  | cons x more ih => exact ih (h.add x)

/-- Merging adds the uses of the other record one by one. -/
theorem merge_eq_addAll (a b : Usage) : a.merge b = b.uses.foldl (fun u x => u.add x) a := by
  have keeps : ∀ (names : List String) (types : List TypeId) (u : Usage),
      (names.foldl (fun u name => u.addMethod name)
        (types.foldl (fun u id => u.addInterface id) u)).cached = u.cached := by
    intro names types u
    induction types generalizing u with
    | nil =>
      induction names generalizing u with
      | nil => rfl
      | cons name names ih => exact ih (u.addMethod name)
    | cons type types ih => exact ih (u.addInterface type)
  simp only [merge, uses, List.foldl_append, List.foldl_map]
  cases hb : b.cached with
  | true => simp [add, setCached]
  | false =>
    rw [Bool.or_false, ← keeps b.methods b.interfaces a]
    rfl

theorem holds_merge {a b : Usage} {use : Use} :
    (a.merge b).Holds use ↔ a.Holds use ∨ b.Holds use := by
  rw [merge_eq_addAll, holds_addAll, mem_uses]
  exact or_comm

theorem Ascending.merge {a : Usage} (h : a.Ascending) (b : Usage) : (a.merge b).Ascending := by
  rw [merge_eq_addAll]
  exact h.addAll

end Usage

end LeastContext

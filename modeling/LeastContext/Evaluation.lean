import LeastContext.Program.Handle

namespace LeastContext

inductive Reference where
  | type (id : TypeId)
  | object (id : ObjectId)
  | package (id : PackageId)
  deriving DecidableEq, Inhabited, Repr

/-- What keeps a run from giving a result. -/
inductive Fault where
  /-- A handle that does not point into its table was looked up. -/
  | missing (reference : Reference)
  /-- A recursion went deeper than there are types. -/
  | endless
  /-- The comparison of two types came back to a question of its own. -/
  | unsettled (left right : TypeId)
  deriving DecidableEq, Inhabited, Repr

/-- The monads that queries run in. Each query is written once. A strict run stops at the first
fault; the plain reading goes on with a value that stands for what was not found. -/
class Evaluation (m : Type → Type) extends Monad m where
  fault {α : Type} : Fault → α → m α

/-- A run that stops at the first fault. -/
abbrev Strict := Except Fault

instance : Evaluation Id where
  fault _ other := other

instance : Evaluation Strict where
  fault fault _ := .error fault

namespace Evaluation

variable {m : Type → Type} [Evaluation m] {α β σ : Type}

/-- The entry of a table at a place, which a reference names. -/
def entry (table : Array α) (index : Nat) (reference : Reference) (other : α) : m α :=
  match table[index]? with
  | some found => pure found
  | none => fault (.missing reference) other

/-- The elements of a list that pass a test. -/
def keep (test : α → m Bool) : List α → m (List α)
  | [] => pure []
  | x :: xs => do
    if ← test x then return x :: (← keep test xs)
    else keep test xs

theorem entry_plain (table : Array α) (index : Nat) (reference : Reference) (other : α) :
    entry table index reference other = (pure (table.getD index other) : Id α) := by
  rw [entry, Array.getD_eq_getD_getElem?]
  cases table[index]? <;> rfl

section Lists

variable (xs : List α)

theorem mapM_plain (f : α → Id β) : xs.mapM f = pure (xs.map fun x => Id.run (f x)) :=
  List.idRun_mapM

theorem foldlM_plain (f : σ → α → Id σ) (s : σ) :
    xs.foldlM f s = pure (xs.foldl (fun s x => Id.run (f s x)) s) :=
  List.idRun_foldlM ..

theorem keep_plain (test : α → Id Bool) :
    keep test xs = pure (xs.filter fun x => Id.run (test x)) := by
  induction xs with
  | nil => rfl
  | cons x xs ih =>
    rw [keep, ih, List.filter_cons]
    exact (apply_ite Id.run _ _ _).symm

theorem allM_plain (test : α → Id Bool) :
    xs.allM test = pure (xs.all fun x => Id.run (test x)) := by
  induction xs with
  | nil => rfl
  | cons x xs ih =>
    rw [List.allM, ih, List.all_cons]
    generalize test x = passes
    cases passes <;> rfl

theorem anyM_plain (test : α → Id Bool) :
    xs.anyM test = pure (xs.any fun x => Id.run (test x)) := by
  induction xs with
  | nil => rfl
  | cons x xs ih =>
    rw [List.anyM, ih, List.any_cons]
    generalize test x = passes
    cases passes <;> rfl

end Lists

end Evaluation

end LeastContext

import LeastContext.Method.Set

namespace LeastContext

open Evaluation

section Answers

variable {α : Type} (ask : α → OptionT Id Bool) (xs : List α)

theorem allM_answers :
    xs.allM ask = OptionT.mk (pure (xs.allM fun x => Id.run (ask x).run)) := by
  induction xs with
  | nil => rfl
  | cons x xs ih =>
    rw [List.allM, List.allM, ih]
    generalize ask x = answer
    rcases answer with _ | _ | _ <;> rfl

theorem anyM_answers :
    xs.anyM ask = OptionT.mk (pure (xs.anyM fun x => Id.run (ask x).run)) := by
  induction xs with
  | nil => rfl
  | cons x xs ih =>
    rw [List.anyM, List.anyM, ih]
    generalize ask x = answer
    rcases answer with _ | _ | _ <;> rfl

end Answers

namespace Program

section Queries

variable {m : Type → Type} [Evaluation m] (p : Program)

/-- Compares two types by asking at most `depth` nested questions; no answer if that is not enough.
A named type is identical to itself alone; unnamed types are compared by their structure,
interfaces by their method sets. -/
def identicalWithinM : Nat → TypeId → TypeId → OptionT m Bool
  | 0, _, _ => failure
  | depth + 1, a, b => do
    if a = b then return true
    else
      match ← (p.formM a : m TypeForm), ← (p.formM b : m TypeForm) with
      | .named _, _ | _, .named _ => return false
      | .basic x, .basic y => return x == y
      | .pointer x, .pointer y | .slice x, .slice y => identicalWithinM depth x y
      | .array j x, .array k y => if j = k then identicalWithinM depth x y else return false
      | .map k x, .map l y =>
        [(k, l), (x, y)].allM fun pair => identicalWithinM depth pair.1 pair.2
      | .signature s, .signature t =>
        if s.variadic = t.variadic ∧ s.params.length = t.params.length ∧
            s.results.length = t.results.length then
          ((s.params.map (·.type) ++ s.results).zip (t.params.map (·.type) ++ t.results)).allM
            fun pair => identicalWithinM depth pair.1 pair.2
        else return false
      | .struct fs, .struct gs =>
        if fs.length = gs.length then
          (fs.zip gs).allM fun pair =>
            if pair.1.name = pair.2.name ∧ pair.1.embedded = pair.2.embedded then
              identicalWithinM depth pair.1.type pair.2.type
            else return false
        else return false
      | .interface _, .interface _ =>
        let ms ← (p.interfaceMethodsM a : m (List Method))
        let ns ← (p.interfaceMethodsM b : m (List Method))
        if ms.length = ns.length then
          ms.allM fun x => ns.anyM fun y =>
            if y.key = x.key then identicalWithinM depth x.signature y.signature
            else return false
        else return false
      | _, _ => return false

/-- Whether two types are identical. There are no more questions than pairs of types, so a
comparison that nests deeper has come back to one of them. -/
def identicalM (a b : TypeId) : m Bool := do
  match ← (p.identicalWithinM (p.types.size * p.types.size + 1) a b).run with
  | some answer => return answer
  | none => fault (.unsettled a b) false

end Queries

section Plain

variable (p : Program)

def identicalWithin (depth : Nat) (a b : TypeId) : Option Bool :=
  Id.run (p.identicalWithinM depth a b).run

def identical? (a b : TypeId) : Option Bool :=
  p.identicalWithin (p.types.size * p.types.size + 1) a b

def identical (a b : TypeId) : Bool :=
  Id.run (p.identicalM a b)

theorem identicalWithin_next (depth : Nat) (a b : TypeId) :
    p.identicalWithin (depth + 1) a b =
      if a = b then some true
      else
        match p.form a, p.form b with
        | .named _, _ | _, .named _ => some false
        | .basic x, .basic y => some (x == y)
        | .pointer x, .pointer y | .slice x, .slice y => p.identicalWithin depth x y
        | .array j x, .array k y => if j = k then p.identicalWithin depth x y else some false
        | .map k x, .map l y =>
          [(k, l), (x, y)].allM fun pair => p.identicalWithin depth pair.1 pair.2
        | .signature s, .signature t =>
          if s.variadic = t.variadic ∧ s.params.length = t.params.length ∧
              s.results.length = t.results.length then
            ((s.params.map (·.type) ++ s.results).zip (t.params.map (·.type) ++ t.results)).allM
              fun pair => p.identicalWithin depth pair.1 pair.2
          else some false
        | .struct fs, .struct gs =>
          if fs.length = gs.length then
            (fs.zip gs).allM fun pair =>
              if pair.1.name = pair.2.name ∧ pair.1.embedded = pair.2.embedded then
                p.identicalWithin depth pair.1.type pair.2.type
              else some false
          else some false
        | .interface _, .interface _ =>
          if (p.interfaceMethods a).length = (p.interfaceMethods b).length then
            (p.interfaceMethods a).allM fun x => (p.interfaceMethods b).anyM fun y =>
              if y.key = x.key then p.identicalWithin depth x.signature y.signature
              else some false
          else some false
        | _, _ => some false := by
  rw [identicalWithin, identicalWithinM]
  simp only [allM_answers, anyM_answers]
  rfl

theorem identical_def (a b : TypeId) : p.identical a b = (p.identical? a b).getD false := by
  rw [identical, identicalM]
  change Id.run (match p.identical? a b with | some answer => _ | none => _) = _
  cases p.identical? a b <;> rfl

end Plain

end Program

end LeastContext

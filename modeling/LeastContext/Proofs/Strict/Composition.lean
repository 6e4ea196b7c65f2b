import LeastContext.Proofs.EmbedWalks
import LeastContext.Proofs.Strict.Lookups

namespace LeastContext.Program

open Strict

variable {p : Program} {home : Option PackageId} {id x : TypeId}

theorem isForeignM_ok (h : p.resolves (.type id)) :
    p.isForeignM (m := Strict) home id = .ok (p.isForeign home id) := by
  rw [isForeignM, isForeign_def, namedM_ok h, ok_bind]
  cases p.named? id <;> rfl

theorem isNameableM_ok (h : p.resolves (.type id)) :
    p.isNameableM (m := Strict) home id = .ok (p.isNameable home id) := by
  rw [isNameableM, isNameable_def, namedM_ok h, ok_bind]
  cases p.named? id <;> rfl

section WellFormed

variable (wf : p.WellFormed)
include wf

theorem reached_resolves (h : Relation.ReflTransGen p.Embeds id x) (hid : p.resolves (.type id)) :
    p.resolves (.type x) := by
  rcases Relation.ReflTransGen.cases_tail h with rfl | ⟨last, _, step⟩
  · exact hid
  · exact embed_resolves wf (mem_embeds.mpr step)

theorem isRequestableM_ok (h : p.resolves (.type id)) :
    p.isRequestableM (m := Strict) home id = .ok (p.isRequestable home id) := by
  rw [isRequestableM, isRequestable_def, namedM_ok h, isInterfaceM_ok wf h, ok_bind]
  cases p.isInterface id <;> cases p.named? id <;> rfl

theorem declaresMethodsM_ok (h : p.resolves (.type id)) :
    p.declaresMethodsM (m := Strict) id = .ok (p.declaresMethods id) := by
  rw [declaresMethodsM, declaresMethods_def, interfaceM_ok wf h, ok_bind]
  cases p.interface? id <;> rfl

theorem declaresM_ok {method : String} (h : p.resolves (.type id)) :
    p.declaresM (m := Strict) method id = .ok (p.declares method id) := by
  rw [declaresM, declares_def, interfaceM_ok wf h, ok_bind]
  cases p.interface? id <;> rfl

theorem isContextWithinM_ok {path name : String} {depth : Nat} (h : p.resolves (.type id))
    (ends : Digraph.Shallow p.embeds depth id) :
    p.isContextWithinM (m := Strict) path name depth id =
      .ok (p.isContextWithin path name depth id) := by
  induction depth generalizing id with
  | zero => exact ends.elim
  | succ depth ih =>
    have below : (p.embeds id).anyM (p.isContextWithinM (m := Strict) path name depth) =
        .ok ((p.embeds id).any (p.isContextWithin path name depth)) :=
      anyM_ok fun e he => ih (embed_resolves wf he) (ends.next he)
    rw [isContextWithinM, isContextWithin_succ, isTypeM_ok wf h, ok_bind]
    cases p.isType id path name with
    | true => rfl
    | false => simp [embedsM_ok wf h, below]

theorem isContextM_ok (path name : String) (h : p.resolves (.type id)) :
    p.isContextM (m := Strict) path name id = .ok (p.isContext path name id) :=
  isContextWithinM_ok wf h (embeds_shallow wf id)

section Walks

variable {stopM : TypeId → Strict Bool} {stop : TypeId → Bool}
  (stops : ∀ x, p.resolves (.type x) → stopM x = .ok (stop x))
include stops

theorem embedWalkWithinM_ok {depth : Nat} (h : p.resolves (.type id))
    (ends : Digraph.Shallow p.embeds depth id) :
    p.embedWalkWithinM (m := Strict) stopM depth id = .ok (p.embedWalkWithin stop depth id) := by
  induction depth generalizing id with
  | zero => exact ends.elim
  | succ depth ih =>
    have below : (p.embeds id).mapM (p.embedWalkWithinM (m := Strict) stopM depth) =
        .ok ((p.embeds id).map (p.embedWalkWithin stop depth)) :=
      mapM_ok fun e he => ih (embed_resolves wf he) (ends.next he)
    rw [embedWalkWithinM, embedWalkWithin_succ, stops id h, ok_bind]
    cases stop id with
    | true => rfl
    | false => simp [embedsM_ok wf h, below, List.flatMap_def]

theorem embedWalkM_ok (h : p.resolves (.type id)) :
    p.embedWalkM (m := Strict) stopM id = .ok (p.embedWalk stop id) :=
  embedWalkWithinM_ok wf stops h (embeds_shallow wf id)

/-- A test of types may be asked of all that a walk meets. -/
theorem chooseM_ok {testM : TypeId → Strict Bool} {test : TypeId → Bool}
    (tests : ∀ x, p.resolves (.type x) → testM x = .ok (test x)) (h : p.resolves (.type id)) :
    p.chooseM (m := Strict) stopM testM id = .ok ((p.embedWalk stop id).filter test).eraseDups := by
  have kept :
      Evaluation.keep testM (p.embedWalk stop id) = .ok ((p.embedWalk stop id).filter test) := by
    apply keep_ok
    intro x hx
    exact tests x (reached_resolves wf (Enters.embeds (mem_embedWalkWithin hx)) h)
  rw [chooseM, embedWalkM_ok wf stops h, ok_bind, kept]
  rfl

end Walks

theorem explicitCompositionM_ok (home : Option PackageId) (h : p.resolves (.type id)) :
    p.explicitCompositionM (m := Strict) home id = .ok (p.explicitComposition home id) := by
  rw [explicitComposition_def]
  exact chooseM_ok wf (fun _ => isForeignM_ok) (fun _ => isRequestableM_ok wf) h

theorem leafGroupsM_ok (h : p.resolves (.type id)) :
    p.leafGroupsM (m := Strict) id = .ok (p.leafGroups id) := by
  rw [leafGroups_def]
  exact chooseM_ok wf (fun _ => declaresMethodsM_ok wf) (fun _ => declaresMethodsM_ok wf) h

theorem explicitlyContainingM_ok (method : String) (h : p.resolves (.type id)) :
    p.explicitlyContainingM (m := Strict) method id = .ok (p.explicitlyContaining method id) := by
  rw [explicitlyContaining_def]
  exact chooseM_ok wf (fun _ _ => rfl) (fun _ => declaresM_ok wf) h

theorem composition_resolves (h : p.resolves (.type id)) (hx : x ∈ p.explicitComposition home id) :
    p.resolves (.type x) :=
  reached_resolves wf (Enters.embeds ((mem_explicitComposition wf).mp hx).1) h

theorem containing_resolves {method : String} (h : p.resolves (.type id))
    (hx : x ∈ p.explicitlyContaining method id) : p.resolves (.type x) :=
  reached_resolves wf ((mem_explicitlyContaining wf).mp hx).1 h

theorem leaf_resolves (h : p.resolves (.type id)) (hx : x ∈ p.leafGroups id) :
    p.resolves (.type x) :=
  reached_resolves wf (leafGroup_below wf hx) h

theorem expandWithinM_ok {depth : Nat} (h : p.resolves (.type id))
    (ends : Digraph.Shallow p.embeds depth id) :
    p.expandWithinM (m := Strict) home depth id = .ok (p.expandWithin home depth id) := by
  induction depth generalizing id with
  | zero => exact ends.elim
  | succ depth ih =>
    rw [expandWithinM, expandWithin_succ, interfaceM_ok wf h, ok_bind]
    cases hbody : p.interface? id with
    | none => rfl
    | some body =>
      have below : body.embeds.mapM (p.expandWithinM (m := Strict) home depth) =
          .ok (body.embeds.map (p.expandWithin home depth)) := by
        apply mapM_ok
        intro e he
        have he : e ∈ p.embeds id := mem_embeds.mpr (.of_body hbody he)
        exact ih (embed_resolves wf he) (ends.next he)
      simp only [isNameableM_ok h, ok_bind, below]
      cases p.isNameable home id <;> rfl

theorem expandM_ok (home : Option PackageId) (h : p.resolves (.type id)) :
    p.expandM (m := Strict) home id = .ok (p.expand home id) :=
  expandWithinM_ok wf h (embeds_shallow wf id)

end WellFormed

end LeastContext.Program

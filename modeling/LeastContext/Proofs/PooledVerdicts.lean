import LeastContext.Proofs.DeclaredUse

namespace LeastContext

/-- A record that holds the uses of two records together. -/
def Usage.IsUnion (joined a b : Usage) : Prop :=
  ∀ use, joined.Holds use ↔ a.Holds use ∨ b.Holds use

theorem Usage.merge_isUnion (a b : Usage) : (a.merge b).IsUnion a b :=
  fun _ => holds_merge

open Strict

namespace Program

variable {p : Program} {request : Request} {a b joined usage : Usage}

/-- A use blames an interface that the variable does not ask for: a part of the type it is used as,
or an interface with the method called. -/
def Blames (p : Program) (request : Request) (type : TypeId) : Use → Prop
  | .interface used =>
    type ∈ p.explicitComposition request.home used ∧ p.isRequested request type = false
  | .method name =>
    p.isMethodRequested request name = false ∧ type ∈ p.explicitlyContaining name request.declared
  | .cached => False

/-- An interface is blamed if some use blames it. -/
theorem mem_unrequested {type : TypeId} : type ∈ (p.problems request usage).unrequested ↔
    ∃ use, usage.Holds use ∧ p.Blames request type use := by
  rw [problems_def, mem_unrequestedUses]
  constructor
  · intro h
    rcases h with ⟨used, hmem, hblames⟩ | ⟨name, hmem, hblames⟩
    · exact ⟨.interface used, hmem, hblames⟩
    · exact ⟨.method name, hmem, hblames⟩
  · intro h
    obtain ⟨use, hholds, hblames⟩ := h
    cases use with
    | interface used => exact .inl ⟨used, hholds, hblames⟩
    | method name => exact .inr ⟨name, hholds, hblames⟩
    | cached => exact hblames.elim

/-- Nothing is used if there are groups and all of them are unused. -/
theorem allUnused_iff_mem : (p.problems request usage).allUnused = true ↔
    p.leafGroups request.declared ≠ [] ∧
      ∀ leaf ∈ p.leafGroups request.declared, leaf ∈ (p.problems request usage).unused := by
  by_cases hgroups : p.leafGroups request.declared = []
  · simp [problems_def, hgroups]
  · rw [allUnused_iff hgroups]
    constructor
    · intro h
      exact ⟨hgroups, fun leaf hleaf => mem_unused.mpr ⟨hleaf, h leaf hleaf⟩⟩
    · intro h leaf hleaf
      exact (mem_unused.mp (h.2 leaf hleaf)).2

section Union

variable (union : joined.IsUnion a b)
include union

/-- What some use of the union does is done by a use of one of the two. -/
theorem exists_use_union {does : Use → Prop} : (∃ use, joined.Holds use ∧ does use) ↔
    (∃ use, a.Holds use ∧ does use) ∨ ∃ use, b.Holds use ∧ does use := by
  simp only [union _, or_and_right, exists_or]

theorem mem_unused_union {leaf : TypeId} : leaf ∈ (p.problems request joined).unused ↔
    leaf ∈ (p.problems request a).unused ∧ leaf ∈ (p.problems request b).unused := by
  rw [mem_unused, mem_unused, mem_unused, exists_use_union union, not_or]
  exact and_and_left

theorem mem_unrequested_union {type : TypeId} : type ∈ (p.problems request joined).unrequested ↔
    type ∈ (p.problems request a).unrequested ∨ type ∈ (p.problems request b).unrequested := by
  rw [mem_unrequested, mem_unrequested, mem_unrequested, exists_use_union union]

theorem allUnused_union : (p.problems request joined).allUnused = true ↔
    (p.problems request a).allUnused = true ∧ (p.problems request b).allUnused = true := by
  rw [allUnused_iff_mem, allUnused_iff_mem, allUnused_iff_mem]
  simp only [mem_unused_union union]
  constructor
  · intro h
    exact ⟨⟨h.1, fun leaf hleaf => (h.2 leaf hleaf).1⟩, h.1, fun leaf hleaf => (h.2 leaf hleaf).2⟩
  · intro h
    exact ⟨h.1.1, fun leaf hleaf => ⟨h.1.2 leaf hleaf, h.2.2 leaf hleaf⟩⟩

theorem unused_union : (p.problems request joined).unused =
    (p.leafGroups request.declared).filter fun leaf =>
      leaf ∈ (p.problems request a).unused ∧ leaf ∈ (p.problems request b).unused := by
  rw [problems_def, unusedGroups_def]
  refine List.filter_congr ?_
  intro leaf hleaf
  have hmem : leaf ∈ (p.problems request joined).unused ↔ (!p.isUsed joined leaf) = true := by
    simp [problems_def, unusedGroups_def, hleaf]
  rw [Bool.eq_iff_iff, ← hmem, mem_unused_union union, decide_eq_true_iff]

end Union

/-- A verdict is joined from two others: the groups unused in both, in the order of the groups, and
the interfaces blamed in either. So more uses make no group unused and take back no blame. -/
structure Joins (groups : List TypeId) (a b joined : Problems) : Prop where
  unused : joined.unused = groups.filter fun leaf => leaf ∈ a.unused ∧ leaf ∈ b.unused
  unrequested : ∀ type, type ∈ joined.unrequested ↔ type ∈ a.unrequested ∨ type ∈ b.unrequested
  allUnused : joined.allUnused = true ↔ a.allUnused = true ∧ b.allUnused = true
  cached : joined.cached = true ↔ a.cached = true ∨ b.cached = true
  unused_subset : joined.unused ⊆ a.unused ∧ joined.unused ⊆ b.unused
  unrequested_subset :
    a.unrequested ⊆ joined.unrequested ∧ b.unrequested ⊆ joined.unrequested

theorem problems_join (union : joined.IsUnion a b) : Joins (p.leafGroups request.declared)
    (p.problems request a) (p.problems request b) (p.problems request joined) where
  unused := unused_union union
  unrequested := fun _ => mem_unrequested_union union
  allUnused := allUnused_union union
  cached := union .cached
  unused_subset :=
    ⟨fun _ h => ((mem_unused_union union).mp h).1, fun _ h => ((mem_unused_union union).mp h).2⟩
  unrequested_subset :=
    ⟨fun _ h => (mem_unrequested_union union).mpr (.inl h),
      fun _ h => (mem_unrequested_union union).mpr (.inr h)⟩

section Runs

variable (wf : p.WellFormed) (declared : p.resolves (.type request.declared))
include wf declared

/-- Where the verdicts on both records are reached, so is the verdict on the union. Uses are tried
in ascending order, so what the search in the union tries before its first hit has been tried in
the one record or in the other. -/
theorem returns_of_union (ha : a.Ascending) (hb : b.Ascending) (hjoined : joined.Ascending)
    (union : joined.IsUnion a b) (runA : Returns (p.problemsM request a))
    (runB : Returns (p.problemsM request b)) : Returns (p.problemsM request joined) := by
  have asymm : ∀ x y : TypeId, x.index < y.index → ¬ y.index < x.index := fun _ _ => Nat.lt_asymm
  obtain ⟨groupsA, partsA, methodsA⟩ := (problemsM_returns wf declared).mp runA
  obtain ⟨groupsB, partsB, methodsB⟩ := (problemsM_returns wf declared).mp runB
  refine (problemsM_returns wf declared).mpr ⟨?_, ?_, ?_⟩
  · intro leaf hleaf
    have hresolves := leaf_resolves wf declared hleaf
    rw [isUsedM_returns wf hresolves]
    rcases (isUsedM_returns wf hresolves).mp (groupsA leaf hleaf) with none | searchA
    · exact .inl none
    rcases (isUsedM_returns wf hresolves).mp (groupsB leaf hleaf) with none | searchB
    · exact .inl none
    refine .inr ((anyM_returns asymm hjoined.interfaces).mpr fun type ht => ?_)
    rcases (union (.interface type)).mp ht with ht | ht
    · refine ((anyM_returns asymm ha.interfaces).mp searchA type ht).imp_right ?_
      rintro ⟨earlier, he, hit⟩
      exact ⟨earlier, (union (.interface earlier)).mpr (.inl he), hit⟩
    · refine ((anyM_returns asymm hb.interfaces).mp searchB type ht).imp_right ?_
      rintro ⟨earlier, he, hit⟩
      exact ⟨earlier, (union (.interface earlier)).mpr (.inr he), hit⟩
  · intro type ht
    exact ((union (.interface type)).mp ht).elim (partsA type) (partsB type)
  · intro method hm
    exact ((union (.method method)).mp hm).elim (methodsA method) (methodsB method)

end Runs

/-- Merging two records gives their union, and the verdict on a union is joined from the verdicts on
both. A verdict is reached unless a comparison has no end, and the one on the union is reached if
those on both are. -/
theorem pooling_joins_verdicts (p : Program) (valid : p.defect? = none) {object : ObjectId}
    {request : Request} (hrequest : p.request? object = some request) {a b : Usage}
    (ha : a.Ascending) (hb : b.Ascending)
    (types : ∀ type ∈ a.interfaces ++ b.interfaces, p.resolves (.type type)) :
    ((a.merge b).Ascending ∧ (a.merge b).IsUnion a b) ∧
      ∀ joined : Usage, joined.Ascending → joined.IsUnion a b →
        ∃ verdictA verdictB verdict,
          Joins (p.leafGroups request.declared) verdictA verdictB verdict ∧
          Follows p.Unsettled (p.problemsM request a) verdictA ∧
          Follows p.Unsettled (p.problemsM request b) verdictB ∧
          Follows p.Unsettled (p.problemsM request joined) verdict ∧
          (Returns (p.problemsM request a) → Returns (p.problemsM request b) →
            Returns (p.problemsM request joined)) := by
  have wf := WellFormed.of_defect? valid
  have declared := request_resolves wf hrequest
  refine ⟨⟨ha.merge b, Usage.merge_isUnion a b⟩, ?_⟩
  intro joined hjoined union
  refine ⟨_, _, _, problems_join union, problemsM_follows wf declared ?_,
    problemsM_follows wf declared ?_, problemsM_follows wf declared ?_,
    returns_of_union wf declared ha hb hjoined union⟩
  · exact fun type ht => types type (List.mem_append_left _ ht)
  · exact fun type ht => types type (List.mem_append_right _ ht)
  · intro type ht
    exact types type (List.mem_append.mpr ((union (.interface type)).mp ht))

/-- One of two siblings is used as a `Logger` and the other one waits for `Done`, so that together
they leave `Printer` unused. -/
theorem twiceDeclared_joins_verdicts :
    let request : Request := ⟨⟨8⟩, some ⟨0⟩, [⟨3⟩, ⟨5⟩, ⟨7⟩]⟩
    let logging : Usage := ⟨[⟨5⟩], [], false⟩
    let waiting : Usage := ⟨[], ["Done"], true⟩
    twiceDeclared.defect? = none ∧ twiceDeclared.request? ⟨0⟩ = some request ∧
      twiceDeclared.problemsM (m := Strict) request logging =
        .ok ⟨false, [⟨3⟩, ⟨7⟩], [], false⟩ ∧
      twiceDeclared.problemsM (m := Strict) request waiting =
        .ok ⟨false, [⟨5⟩, ⟨7⟩], [], true⟩ ∧
      ∃ pooled, twiceDeclared.problemsM (m := Strict) request (logging.merge waiting) = .ok pooled ∧
        pooled.unused = [⟨7⟩] := by
  intro request logging waiting
  have logged : twiceDeclared.problemsM (m := Strict) request logging =
      .ok ⟨false, [⟨3⟩, ⟨7⟩], [], false⟩ := by
    decide +kernel
  have waited : twiceDeclared.problemsM (m := Strict) request waiting =
      .ok ⟨false, [⟨5⟩, ⟨7⟩], [], true⟩ := by
    decide +kernel
  obtain ⟨⟨ascending, union⟩, joins⟩ := pooling_joins_verdicts twiceDeclared twiceDeclared_valid
    twiceDeclared_request (a := logging) (b := waiting) ⟨by simp [logging], by simp [logging]⟩
    ⟨by simp [waiting], by simp [waiting]⟩ (by decide)
  obtain ⟨_, _, pooled, joined, runA, runB, run, returns⟩ := joins _ ascending union
  obtain rfl := runA.eq_of_ok logged
  obtain rfl := runB.eq_of_ok waited
  refine ⟨twiceDeclared_valid, twiceDeclared_request, logged, waited, pooled,
    run.ok_of_returns (returns ⟨_, logged⟩ ⟨_, waited⟩), ?_⟩
  rw [joined.unused]
  decide

theorem leftVariable_recurs_back : leftVariable.Recurs (⟨9⟩, ⟨8⟩) := by
  have signatures : leftVariable.Asks (⟨9⟩, ⟨8⟩) (⟨3⟩, ⟨2⟩) :=
    ⟨[], [some (⟨1⟩, ⟨0⟩)], by decide, by simp⟩
  have literals : leftVariable.Asks (⟨3⟩, ⟨2⟩) (⟨9⟩, ⟨8⟩) :=
    ⟨[], [], by decide, by simp⟩
  exact .tail (.single signatures) literals

/-- A record about which no verdict is ever reached, so that there is none to join. -/
theorem leftVariable_has_no_verdict :
    leftVariable.defect? = none ∧
      leftVariable.request? ⟨0⟩ = some ⟨⟨2⟩, some ⟨0⟩, [⟨4⟩]⟩ ∧
      leftVariable.problemsM (m := Strict) ⟨⟨2⟩, some ⟨0⟩, [⟨4⟩]⟩ ⟨[⟨3⟩], [], false⟩ =
        .error (.unsettled ⟨9⟩ ⟨8⟩) ∧
      ∀ depth, leftVariable.identicalWithin depth ⟨9⟩ ⟨8⟩ = none :=
  ⟨leftVariable_valid, leftVariable_request, by decide +kernel,
    leftVariable_recurs_back.unanswered⟩

end Program

end LeastContext

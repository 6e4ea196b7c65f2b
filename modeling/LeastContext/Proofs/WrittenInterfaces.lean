import LeastContext.Proofs.Strict.Verdict

namespace LeastContext.Program

open Strict

variable {p : Program} {request : Request} {home : Option PackageId} {id e : TypeId}

/-- A type that a package writes out or declares itself: an interface literal, or a named interface
of the package. -/
def IsOwn (p : Program) (home : Option PackageId) (id : TypeId) : Prop :=
  (∃ body, p.form id = .interface body) ∨
    ∃ decl, p.named? id = some decl ∧ decl.package = home ∧ p.isInterface id = true

theorem IsOwn.not_foreign (h : p.IsOwn home id) : p.isForeign home id = false := by
  rcases h with ⟨body, hform⟩ | ⟨decl, hnamed, hpackage, _⟩
  · simp [isForeign_def, named?_def, hform]
  · simp [isForeign_def, hnamed, hpackage]

section WellFormed

variable (wf : p.WellFormed)
include wf

/-- What a variable writes in its own type and its package can ask for, it asks for by name. -/
theorem mem_named_of_written {object : ObjectId} (hrequest : p.request? object = some request)
    (own : p.IsOwn request.home request.declared) (written : e ∈ p.embeds request.declared)
    (hrequestable : p.isRequestable request.home e = true) : e ∈ request.named := by
  rw [request?_eq_some hrequest, mem_explicitComposition wf]
  exact ⟨.single ⟨own.not_foreign, mem_embeds.mp written⟩, hrequestable⟩

end WellFormed

/-- An interface that a variable writes in its own type is blamed exactly if it is an unexported
one of the variable's package and declares a method that is called on the variable, while no
interface of the type that declares the method counts as asked for. This is the verdict that is
reached, unless a comparison has no end. -/
theorem written_interface_blamed_iff (p : Program) (valid : p.defect? = none) {object : ObjectId}
    {request : Request} (hrequest : p.request? object = some request)
    (own : p.IsOwn request.home request.declared) {e : TypeId}
    (written : e ∈ p.embeds request.declared) {decl : NamedType}
    (hnamed : p.named? e = some decl) (hinterface : p.isInterface e = true) (usage : Usage) :
    (e ∈ (p.problems request usage).unrequested ↔
      decl.package = request.home ∧ decl.isExported = false ∧
        ∃ method ∈ usage.methods, p.declares method e = true ∧
          ∀ other, Relation.ReflTransGen p.Embeds request.declared other →
            p.declares method other = true → p.isRequested request other = false) ∧
      ((∀ type ∈ usage.interfaces, p.resolves (.type type)) →
        Follows p.Unsettled (p.problemsM request usage) (p.problems request usage)) := by
  have wf := WellFormed.of_defect? valid
  refine ⟨?_, problemsM_follows wf (request_resolves wf hrequest)⟩
  have hreach : Relation.ReflTransGen p.Embeds request.declared e :=
    .single (mem_embeds.mp written)
  -- what can be asked for by name is asked for here, and then never blamed
  have hhidden : p.isRequested request e = false →
      decl.package = request.home ∧ decl.isExported = false := by
    intro hnot
    by_contra hvisible
    have hrequestable : p.isRequestable request.home e = true := by
      refine isRequestable_iff.mpr ⟨hinterface, decl, hnamed, ?_⟩
      by_cases hpackage : decl.package = request.home
      · exact .inr (by simpa [hpackage] using hvisible)
      · exact .inl hpackage
    have hasked :=
      isRequested_of_named wf (mem_named_of_written wf hrequest own written hrequestable)
    rw [hasked] at hnot
    cases hnot
  rw [problems_def, mem_unrequestedUses]
  constructor
  · intro hblamed
    rcases hblamed with ⟨used, _, hpart, hnot⟩ | ⟨method, hmethod, hnot, hcontains⟩
    · obtain ⟨hpackage, hexported⟩ := hhidden hnot
      obtain ⟨_, decl', hnamed', hvisible⟩ :=
        isRequestable_iff.mp ((mem_explicitComposition wf).mp hpart).2
      obtain rfl := Option.some.inj (hnamed.symm.trans hnamed')
      simp [hpackage, hexported] at hvisible
    · have hdeclares := ((mem_explicitlyContaining wf).mp hcontains).2
      have hnone := (isMethodRequested_false wf).mp hnot
      obtain ⟨hpackage, hexported⟩ := hhidden (hnone e hreach hdeclares)
      exact ⟨hpackage, hexported, method, hmethod, hdeclares, hnone⟩
  · intro hcalled
    obtain ⟨_, _, method, hmethod, hdeclares, hnone⟩ := hcalled
    refine .inr ⟨method, hmethod, (isMethodRequested_false wf).mpr hnone, ?_⟩
    exact (mem_explicitlyContaining wf).mpr ⟨hreach, hdeclares⟩

/-- A package with an unexported capability `c = interface { M() }` and a function whose parameter
of type `interface { context.Context; c }` is called `M` on. -/
def hiddenCapability : Program where
  package := ⟨0⟩
  packages := #[⟨"app", "app"⟩, ⟨"context", "context"⟩]
  types := #[
    .signature ⟨[], [], false⟩,
    .interface ⟨[⟨"Done", none, ⟨0⟩⟩], []⟩,
    .named ⟨"Context", some ⟨1⟩, ⟨1⟩, []⟩,
    .interface ⟨[⟨"M", none, ⟨0⟩⟩], []⟩,
    .named ⟨"c", some ⟨0⟩, ⟨3⟩, []⟩,
    .interface ⟨[], [⟨2⟩, ⟨4⟩]⟩]
  objects := #[⟨"ctx", .variable, some ⟨0⟩, some ⟨5⟩, none⟩]
  files :=
    let name text binding : Ident := ⟨text, ⟨⟨0⟩, 0, 0⟩, binding⟩
    let ctx : Expr := ⟨.ident (name "ctx" (some (.uses ⟨0⟩))), some ⟨5⟩⟩
    let called : Expr := ⟨.selector ctx (name "M" none), some ⟨0⟩⟩
    let param : Field := ⟨[name "ctx" (some (.defines ⟨0⟩))], ⟨.interfaceType [], some ⟨5⟩⟩⟩
    [⟨⟨0⟩, "app.go", [.func ⟨none, name "F" none, ⟨[param], []⟩,
      some ⟨[.expr ⟨.call called [] false, none⟩]⟩⟩]⟩]

theorem hiddenCapability_valid : hiddenCapability.defect? = none := by
  decide +kernel

theorem hiddenCapability_own : hiddenCapability.IsOwn (some ⟨0⟩) ⟨5⟩ :=
  .inl ⟨_, rfl⟩

/-- The capability is blamed though the variable writes it in its type. -/
theorem hiddenCapability_blamed :
    hiddenCapability.defect? = none ∧
      hiddenCapability.request? ⟨0⟩ = some ⟨⟨5⟩, some ⟨0⟩, [⟨2⟩]⟩ ∧
      hiddenCapability.IsOwn (some ⟨0⟩) ⟨5⟩ ∧ ⟨4⟩ ∈ hiddenCapability.embeds ⟨5⟩ ∧
      hiddenCapability.named? ⟨4⟩ = some ⟨"c", some ⟨0⟩, ⟨3⟩, []⟩ ∧
      hiddenCapability.isInterface ⟨4⟩ = true ∧
      ∃ method ∈ ["M"], hiddenCapability.declares method ⟨4⟩ = true ∧
        ∀ other, Relation.ReflTransGen hiddenCapability.Embeds ⟨5⟩ other →
          hiddenCapability.declares method other = true →
            hiddenCapability.isRequested ⟨⟨5⟩, some ⟨0⟩, [⟨2⟩]⟩ other = false := by
  have hrequest : hiddenCapability.request? ⟨0⟩ = some ⟨⟨5⟩, some ⟨0⟩, [⟨2⟩]⟩ := by decide +kernel
  have hblamed := (written_interface_blamed_iff hiddenCapability hiddenCapability_valid hrequest
    hiddenCapability_own (e := ⟨4⟩) (by decide) rfl (by decide) ⟨[], ["M"], false⟩).1.mp
    (by decide +kernel)
  exact ⟨hiddenCapability_valid, hrequest, hiddenCapability_own, by decide, rfl, by decide,
    hblamed.2.2⟩

/-- In the analysis of this package the variable is tracked, the call of the method is all that is
recorded of it, and the interface it is blamed for is one that its type embeds. -/
theorem written_interface_can_be_blamed :
    hiddenCapability.defect? = none ∧
      ⟨0⟩ ∈ (hiddenCapability.collect .default).active ∧
      ((hiddenCapability.collect .default).variableAt ⟨0⟩).object = ⟨0⟩ ∧
      hiddenCapability.request? ⟨0⟩ = some ⟨⟨5⟩, some ⟨0⟩, [⟨2⟩]⟩ ∧
      hiddenCapability.form ⟨5⟩ = .interface ⟨[], [⟨2⟩, ⟨4⟩]⟩ ∧
      hiddenCapability.named? ⟨4⟩ = some ⟨"c", some ⟨0⟩, ⟨3⟩, []⟩ ∧
      hiddenCapability.isInterface ⟨4⟩ = true ∧
      (hiddenCapability.markUses .default
        (hiddenCapability.pool (hiddenCapability.collect .default)).1).1.ledger.usage ⟨0⟩ =
          ⟨[], ["M"], false⟩ ∧
      hiddenCapability.problemsM (m := Strict) ⟨⟨5⟩, some ⟨0⟩, [⟨2⟩]⟩ ⟨[], ["M"], false⟩ =
        .ok ⟨false, [⟨2⟩], [⟨4⟩], false⟩ := by
  decide +kernel

end LeastContext.Program

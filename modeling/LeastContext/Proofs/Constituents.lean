import LeastContext.Proofs.Flattening
import LeastContext.Proofs.Satisfaction
import LeastContext.Proofs.Strict.Verdict

namespace LeastContext.Program

open Strict

variable {p : Program} {request : Request} {home : Option PackageId}
  {id literal whole x part : TypeId} {decl : NamedType} {embeds : List TypeId}

/-- What a package sees in a type and can name. It looks into interfaces without a name and into
its own, and it can name those of other packages and its exported ones. -/
def Shows (p : Program) (home : Option PackageId) (id x : TypeId) : Prop :=
  Relation.ReflTransGen (fun a b =>
    (∀ decl, p.named? a = some decl → decl.package = home) ∧ p.Embeds a b) id x ∧
    p.isInterface x = true ∧
      ∃ decl, p.named? x = some decl ∧ (decl.package ≠ home ∨ decl.isExported = true)

/-- Two interfaces have methods under one key with different signatures. -/
def Clashes (p : Program) (a b : TypeId) : Prop :=
  ∃ method ∈ p.interfaceMethods a, ∃ other ∈ p.interfaceMethods b,
    method.key = other.key ∧ p.identical method.signature other.signature = false

/-- A variable asks for what its package sees in the declared type, and for an interface if it asks
for all parts that the package of the interface sees in it. An interface that clashes with the
declared type cannot be asked for, and counts as if it were. -/
inductive AsksFor (p : Program) (home : Option PackageId) (declared : TypeId) : TypeId → Prop where
  | shown {x : TypeId} : p.Shows home declared x → AsksFor p home declared x
  | parts {x : TypeId} {decl : NamedType} : p.named? x = some decl →
      (∃ part, part ≠ x ∧ p.Shows decl.package x part) →
      (∀ part, part ≠ x → p.Shows decl.package x part → AsksFor p home declared part) →
      AsksFor p home declared x
  | clashing {x : TypeId} : p.Clashes declared x → AsksFor p home declared x

theorem Shows.below (h : p.Shows home id x) : Relation.ReflTransGen p.Embeds id x := by
  have weaker : (fun a b => (∀ decl, p.named? a = some decl → decl.package = home) ∧
      p.Embeds a b) ≤ p.Embeds := fun _ _ step => step.2
  exact Relation.ReflTransGen.mono weaker id x h.1

theorem isInlineWithMethods_of_named (h : p.named? x = some decl) :
    p.isInlineWithMethods x = false := by
  rw [named?_def] at h
  split at h
  · simp [isInlineWithMethods_def, *]
  · cases h

section Asking

variable (wf : p.WellFormed)
include wf

theorem mem_explicitComposition_iff_shows :
    x ∈ p.explicitComposition home id ↔ p.Shows home id x := by
  have hsteps : p.Enters (p.isForeign home) =
      fun a b => (∀ decl, p.named? a = some decl → decl.package = home) ∧ p.Embeds a b := by
    funext a b
    rw [Enters, isForeign_eq_false]
  rw [mem_explicitComposition wf, isRequestable_iff, hsteps, Shows]

theorem mem_namedParts_iff_shows (hnamed : p.named? x = some decl) :
    part ∈ p.namedParts x ↔ part ≠ x ∧ p.Shows decl.package x part := by
  rw [mem_namedParts, ← mem_explicitComposition_iff_shows wf, and_comm]
  simp [hnamed]

/-- An interface below another has no method key that the other one lacks, so that only a clash
keeps the other one from satisfying it. -/
theorem implements_eq_false_iff_clashes (hinterface : p.isInterface x = true)
    (hbelow : Relation.ReflTransGen p.Embeds id x) (htop : p.isInterface id = true) :
    p.implements id x = false ↔ p.Clashes id x := by
  rw [← Bool.not_eq_true, implements_iff, methodSet_of_isInterface htop]
  constructor
  · intro hno
    have hmissing : ∃ wanted ∈ p.interfaceMethods x,
        ¬ p.Provides (p.interfaceMethods id) wanted := by
      simpa [hinterface] using hno
    obtain ⟨wanted, hwanted, hmissing⟩ := hmissing
    obtain ⟨e, hreach, hdecl⟩ := mem_interfaceMethods hwanted
    have hkey : wanted.key ∈ (p.interfaceMethods id).map Method.key :=
      (key_mem_interfaceMethods wf).mpr ⟨e, wanted, hbelow.trans hreach, hdecl, rfl⟩
    obtain ⟨method, hm, hsame⟩ := List.mem_map.mp hkey
    refine ⟨method, hm, wanted, hwanted, hsame, ?_⟩
    exact Bool.eq_false_iff.mpr fun hidentical => hmissing ⟨method, hm, hsame, hidentical⟩
  · rintro ⟨method, hm, other, ho, hsame, hdifferent⟩ ⟨_, hall⟩
    obtain ⟨found, hf, hkey, hidentical⟩ := hall other ho
    obtain rfl := List.inj_on_of_nodup_map (interfaceMethods_keys id) hf hm (hkey.trans hsame.symm)
    rw [hdifferent] at hidentical
    cases hidentical

variable (htop : p.isInterface request.declared = true)
  (hnamed : request.named = p.explicitComposition request.home request.declared)
include htop hnamed

theorem asksFor_of_isRequested {depth : Nat} (ends : Digraph.Shallow p.namedParts depth x)
    (hx : p.named? x = some decl) (hinterface : p.isInterface x = true)
    (hbelow : Relation.ReflTransGen p.Embeds request.declared x)
    (h : p.isRequested request x = true) : p.AsksFor request.home request.declared x := by
  induction depth generalizing x decl with
  | zero => exact ends.elim
  | succ depth ih =>
    rcases (isRequested_iff wf).mp h with ⟨_, hasserted⟩ | hinline | hasked | ⟨hne, hall⟩
    · exact .clashing ((implements_eq_false_iff_clashes wf hinterface hbelow htop).mp hasserted)
    · rw [isInlineWithMethods_of_named hx] at hinline
      cases hinline
    · rw [hnamed, mem_explicitComposition_iff_shows wf] at hasked
      exact .shown hasked
    · obtain ⟨first, hfirst⟩ := List.exists_mem_of_ne_nil _ hne
      refine .parts hx ⟨first, (mem_namedParts_iff_shows wf hx).mp hfirst⟩ ?_
      intro part hother hshows
      have hpart := (mem_namedParts_iff_shows wf hx).mpr ⟨hother, hshows⟩
      obtain ⟨hi, _, hdecl, _⟩ := hshows.2
      exact ih (ends.next hpart) hdecl hi (hbelow.trans hshows.below) (hall part hpart)

/-- Whether a named interface below the declared type counts as asked for, without the order in
which the questions are put. -/
theorem isRequested_iff_asksFor (hx : p.named? x = some decl) (hinterface : p.isInterface x = true)
    (hbelow : Relation.ReflTransGen p.Embeds request.declared x) :
    p.isRequested request x = true ↔ p.AsksFor request.home request.declared x := by
  refine ⟨asksFor_of_isRequested wf htop hnamed (namedParts_shallow wf x) hx hinterface hbelow, ?_⟩
  intro h
  induction h generalizing decl with
  | shown hshows =>
    refine isRequested_of_named wf ?_
    rw [hnamed, mem_explicitComposition_iff_shows wf]
    exact hshows
  | parts hdecl hsome _ ih =>
    obtain ⟨first, hfirst⟩ := hsome
    refine (isRequested_iff wf).mpr (.inr (.inr (.inr ⟨?_, ?_⟩)))
    · exact List.ne_nil_of_mem ((mem_namedParts_iff_shows wf hdecl).mpr hfirst)
    · intro part hpart
      obtain ⟨hother, hshows⟩ := (mem_namedParts_iff_shows wf hdecl).mp hpart
      obtain ⟨hi, _, hpartDecl, _⟩ := hshows.2
      exact ih part hother hshows hpartDecl hi (hbelow.trans hshows.below)
  | clashing hclash =>
    have hasserted := (implements_eq_false_iff_clashes wf hinterface hbelow htop).mpr hclash
    exact (isRequested_iff wf).mpr (.inl ⟨hinterface, hasserted⟩)

end Asking

/-- An interface literal and a named interface that embed the same exported interfaces and declare
no methods of their own. -/
structure Constituents (p : Program) (literal whole : TypeId) (decl : NamedType)
    (embeds : List TypeId) : Prop where
  literal : p.form literal = .interface ⟨[], embeds⟩
  named : p.named? whole = some decl
  whole : p.interface? whole = some ⟨[], embeds⟩
  nonempty : embeds ≠ []
  exported : ∀ e ∈ embeds, p.isInterface e = true ∧
    ∃ part, p.named? e = some part ∧ part.isExported = true

namespace Constituents

theorem interface?_literal (h : p.Constituents literal whole decl embeds) :
    p.interface? literal = some ⟨[], embeds⟩ := by
  have stop : p.declaredAs literal = none :=
    declaredAs_none.mpr (by simp [h.literal, TypeForm.isNamed])
  exact interface?_eq_some.mpr ⟨literal, ⟨[], .stop stop⟩, h.literal⟩

theorem embeds_literal (h : p.Constituents literal whole decl embeds) :
    p.embeds literal = embeds :=
  embeds_of_body h.interface?_literal

theorem embeds_whole (h : p.Constituents literal whole decl embeds) : p.embeds whole = embeds :=
  embeds_of_body h.whole

theorem embed_below (h : p.Constituents literal whole decl embeds) {e : TypeId} (he : e ∈ embeds) :
    p.Embeds literal e :=
  mem_embeds.mp (by rw [h.embeds_literal]; exact he)

/-- An embed of the literal is seen from every package. -/
theorem shows_embed (h : p.Constituents literal whole decl embeds) {e : TypeId} (he : e ∈ embeds)
    (home : Option PackageId) : p.Shows home literal e := by
  have hopen : ∀ decl, p.named? literal = some decl → decl.package = home := by
    simp [named?_def, h.literal]
  obtain ⟨hinterface, part, hpart, hexported⟩ := h.exported e he
  exact ⟨.single ⟨hopen, h.embed_below he⟩, hinterface, part, hpart, .inr hexported⟩

theorem ne (h : p.Constituents literal whole decl embeds) : literal ≠ whole := by
  rintro rfl
  have hnamed := h.named
  simp [named?_def, h.literal] at hnamed

theorem requestable (h : p.Constituents literal whole decl embeds) {e : TypeId} (he : e ∈ embeds)
    (home : Option PackageId) : p.isRequestable home e = true := by
  obtain ⟨hinterface, part, hpart, hexported⟩ := h.exported e he
  exact isRequestable_iff.mpr ⟨hinterface, part, hpart, .inr hexported⟩

section WellFormed

variable (wf : p.WellFormed)
include wf

theorem implements (h : p.Constituents literal whole decl embeds) :
    p.implements literal whole = true := by
  have hmethods := interfaceMethods_congr wf h.interface?_literal h.whole
  have hset : p.methodSet literal = p.interfaceMethods whole := by
    simp [methodSet_def, isInterface_def, h.interface?_literal, hmethods]
  have hself : ∀ wanted ∈ p.interfaceMethods whole, (p.interfaceMethods whole).any (fun method =>
      method.key = wanted.key && p.identical method.signature wanted.signature) = true := by
    intro wanted hwanted
    exact List.any_eq_true.mpr ⟨wanted, hwanted, by simp [identical_self]⟩
  rw [Program.implements_def, if_neg h.ne, satisfies_def, hset]
  simpa [isInterface_def, h.whole] using hself

/-- The whole is not met below the literal, so it is not asked for by name. -/
theorem not_mem_composition (h : p.Constituents literal whole decl embeds)
    (home : Option PackageId) : whole ∉ p.explicitComposition home literal := by
  intro hm
  have hreach := Enters.embeds ((mem_explicitComposition wf).mp hm).1
  rcases Relation.ReflTransGen.cases_head hreach with he | ⟨e, step, hbelow⟩
  · exact h.ne he
  · rw [← mem_embeds, h.embeds_literal, ← h.embeds_whole, mem_embeds] at step
    exact embeds_irrefl wf step hbelow rfl

/-- From its own package the parts of the whole are the compositions of its embeds. -/
theorem mem_namedParts (h : p.Constituents literal whole decl embeds) {part : TypeId} :
    part ∈ p.namedParts whole ↔ ∃ e ∈ embeds, part ∈ p.explicitComposition decl.package e := by
  have hopen : p.isForeign decl.package whole = false := by simp [isForeign_def, h.named]
  constructor
  · intro hpart
    obtain ⟨decl', hnamed, hpart, hne⟩ := Program.mem_namedParts.mp hpart
    obtain rfl := Option.some.inj (h.named.symm.trans hnamed)
    obtain ⟨hreach, hrequestable⟩ := (mem_explicitComposition wf).mp hpart
    rcases Relation.ReflTransGen.cases_head hreach with he | ⟨e, step, hbelow⟩
    · exact absurd he.symm hne
    · have he : e ∈ embeds := h.embeds_whole ▸ mem_embeds.mpr step.2
      exact ⟨e, he, (mem_explicitComposition wf).mpr ⟨hbelow, hrequestable⟩⟩
  · intro hpart
    obtain ⟨e, he, hpart⟩ := hpart
    obtain ⟨hbelow, hrequestable⟩ := (mem_explicitComposition wf).mp hpart
    have step : p.Embeds whole e := mem_embeds.mp (by rw [h.embeds_whole]; exact he)
    refine Program.mem_namedParts.mpr ⟨decl, h.named, ?_, ?_⟩
    · exact (mem_explicitComposition wf).mpr ⟨.head ⟨hopen, step⟩ hbelow, hrequestable⟩
    · exact embeds_irrefl wf step (Enters.embeds hbelow)

theorem namedParts_ne_nil (h : p.Constituents literal whole decl embeds) :
    p.namedParts whole ≠ [] := by
  obtain ⟨e, he⟩ := List.exists_mem_of_ne_nil embeds h.nonempty
  have hpart : e ∈ p.namedParts whole := (h.mem_namedParts wf).mpr
    ⟨e, he, (mem_explicitComposition wf).mpr ⟨.refl, h.requestable he _⟩⟩
  exact List.ne_nil_of_mem hpart

/-- A variable of the literal type has asked for the whole exactly if it has asked for all that the
package of the whole sees below its embeds. -/
theorem isRequested_whole (h : p.Constituents request.declared whole decl embeds)
    (hnamed : request.named = p.explicitComposition request.home request.declared) :
    p.isRequested request whole = true ↔
      ∀ e ∈ embeds, ∀ x, x ≠ e → p.Shows decl.package e x →
        p.AsksFor request.home request.declared x := by
  have htop : p.isInterface request.declared = true := isInterface_iff.mpr ⟨_, h.interface?_literal⟩
  have hnot : whole ∉ request.named := by
    rw [hnamed]
    exact h.not_mem_composition wf request.home
  have hasks : ∀ e ∈ embeds, ∀ x, p.Shows decl.package e x →
      (p.isRequested request x = true ↔ p.AsksFor request.home request.declared x) := by
    intro e he x hshows
    obtain ⟨hinterface, _, hdecl, _⟩ := hshows.2
    have below := Relation.ReflTransGen.head (h.embed_below he) hshows.below
    exact isRequested_iff_asksFor wf htop hnamed hdecl hinterface below
  rw [isRequested_iff wf]
  simp only [h.implements wf, isInlineWithMethods_of_named h.named, hnot, h.namedParts_ne_nil wf,
    h.mem_namedParts wf, mem_explicitComposition_iff_shows wf, Bool.true_eq_false,
    Bool.false_eq_true, and_false, false_or, ne_eq, not_false_eq_true, true_and]
  constructor
  · intro hall e he x _ hshows
    exact (hasks e he x hshows).mp (hall x ⟨e, he, hshows⟩)
  · rintro hall x ⟨e, he, hshows⟩
    refine (hasks e he x hshows).mpr ?_
    by_cases hx : x = e
    · exact .shown (hx ▸ h.shows_embed he request.home)
    · exact hall e he x hx hshows

/-- In the package of the whole, what is seen in its embeds is asked for by name. -/
theorem isRequested_part (h : p.Constituents request.declared whole decl embeds)
    (hnamed : request.named = p.explicitComposition request.home request.declared) {e part : TypeId}
    (he : e ∈ embeds) (hpart : part ∈ p.explicitComposition request.home e) :
    p.isRequested request part = true := by
  have hopen : p.isForeign request.home request.declared = false := by
    simp [isForeign_def, named?_def, h.literal]
  obtain ⟨hbelow, hrequestable⟩ := (mem_explicitComposition wf).mp hpart
  refine isRequested_of_named wf ?_
  rw [hnamed, mem_explicitComposition wf]
  exact ⟨.head ⟨hopen, h.embed_below he⟩ hbelow, hrequestable⟩

end WellFormed

end Constituents

theorem explicitComposition_foreign (wf : p.WellFormed) {home : Option PackageId}
    (hnamed : p.named? whole = some decl) (hforeign : decl.package ≠ home)
    (hinterface : p.isInterface whole = true) : p.explicitComposition home whole = [whole] := by
  have hstop : p.isForeign home whole = true := isForeign_iff.mpr ⟨decl, hnamed, hforeign⟩
  have hrequestable : p.isRequestable home whole = true :=
    isRequestable_iff.mpr ⟨hinterface, decl, hnamed, .inl hforeign⟩
  simp [explicitComposition_def, embedWalk_eq wf, hstop, hrequestable, List.eraseDups_cons]

/-- A variable that embeds what a named interface embeds and is used as that interface is blamed
for nothing exactly if it is declared in the package of the interface, or asks for all that this
package sees below the embeds. Otherwise it is blamed for the interface alone. This is the verdict
that is reached, unless a comparison has no end. -/
theorem constituents_stand_for_whole_iff (p : Program) (valid : p.defect? = none)
    {object : ObjectId} {request : Request} (hrequest : p.request? object = some request)
    {whole : TypeId} {decl : NamedType} {embeds : List TypeId}
    (parts : p.Constituents request.declared whole decl embeds) {usage : Usage}
    (interfaces : usage.interfaces = [whole]) (methods : usage.methods = []) :
    ((p.problems request usage).unrequested = [] ↔ decl.package = request.home ∨
        ∀ e ∈ embeds, ∀ x, x ≠ e → p.Shows decl.package e x →
          p.AsksFor request.home request.declared x) ∧
      (p.problems request usage).unrequested ⊆ [whole] ∧
      Follows p.Unsettled (p.problemsM request usage) (p.problems request usage) := by
  have wf := WellFormed.of_defect? valid
  have hnamed := request?_eq_some hrequest
  have hinterface : p.isInterface whole = true := isInterface_iff.mpr ⟨_, parts.whole⟩
  have hwhole := parts.isRequested_whole wf hnamed
  have hfollows : Follows p.Unsettled (p.problemsM request usage) (p.problems request usage) := by
    refine problemsM_follows wf (request_resolves wf hrequest) ?_
    simpa [interfaces] using resolves_of_named parts.named
  have huses : (p.problems request usage).unrequested =
      (p.explicitComposition request.home whole).filter
        fun part => !p.isRequested request part := by
    simp [problems_def, unrequestedUses_def, interfaces, methods]
  rw [← and_assoc]
  refine ⟨?_, hfollows⟩
  rw [huses]
  by_cases hpackage : decl.package = request.home
  · -- at home the whole and its parts are asked for, each for a reason of its own
    have hasked : ∀ part ∈ p.explicitComposition request.home whole,
        p.isRequested request part = true := by
      intro part hpart
      by_cases he : part = whole
      · rw [he, hwhole]
        intro e he x _ hshows
        obtain ⟨hi, _, hdecl, _⟩ := hshows.2
        have htop := isInterface_iff.mpr ⟨_, parts.interface?_literal⟩
        rw [← isRequested_iff_asksFor wf htop hnamed hdecl hi
          (.head (parts.embed_below he) hshows.below)]
        rw [hpackage, ← mem_explicitComposition_iff_shows wf] at hshows
        exact parts.isRequested_part wf hnamed he hshows
      · have hbelow : part ∈ p.namedParts whole :=
          mem_namedParts.mpr ⟨decl, parts.named, by rw [hpackage]; exact hpart, he⟩
        obtain ⟨e, hm, hpart⟩ := (parts.mem_namedParts wf).mp hbelow
        exact parts.isRequested_part wf hnamed hm (hpackage ▸ hpart)
    have hnone : ((p.explicitComposition request.home whole).filter fun part =>
        !p.isRequested request part) = [] :=
      List.filter_eq_nil_iff.mpr fun part hpart => by simp [hasked part hpart]
    simp [hnone, hpackage]
  · rw [explicitComposition_foreign wf parts.named hpackage hinterface]
    refine ⟨?_, List.filter_subset_self _⟩
    rw [← hwhole]
    simp [hpackage]

/-- A library with `F = interface { M() }`, `E = interface { F }` and `I = interface { E }`, and a
variable of another package that asks for `interface { lib.E }`. -/
def nestedParts : Program where
  package := ⟨0⟩
  packages := #[⟨"app", "app"⟩, ⟨"lib", "lib"⟩]
  types := #[
    .signature ⟨[], [], false⟩,
    .interface ⟨[⟨"M", none, ⟨0⟩⟩], []⟩,
    .named ⟨"F", some ⟨1⟩, ⟨1⟩, []⟩,
    .interface ⟨[], [⟨2⟩]⟩,
    .named ⟨"E", some ⟨1⟩, ⟨3⟩, []⟩,
    .interface ⟨[], [⟨4⟩]⟩,
    .named ⟨"I", some ⟨1⟩, ⟨5⟩, []⟩,
    .interface ⟨[], [⟨4⟩]⟩]
  objects := #[⟨"ctx", .variable, some ⟨0⟩, some ⟨7⟩, none⟩]
  files := []

theorem nestedParts_valid : nestedParts.defect? = none := by
  decide +kernel

theorem nestedParts_constituents :
    nestedParts.Constituents ⟨7⟩ ⟨6⟩ ⟨"I", some ⟨1⟩, ⟨5⟩, []⟩ [⟨4⟩] where
  literal := rfl
  named := rfl
  whole := rfl
  nonempty := by simp
  exported := by
    simp only [List.mem_singleton, forall_eq]
    exact ⟨rfl, ⟨"E", some ⟨1⟩, ⟨3⟩, []⟩, rfl, by decide⟩

theorem nestedParts_request :
    nestedParts.request? ⟨0⟩ = some ⟨⟨7⟩, some ⟨0⟩, [⟨4⟩]⟩ := by
  decide +kernel

/-- From the other package a part of the embed is missing, which the variable does not ask for. -/
theorem nestedParts_stand_for_whole_iff :
    nestedParts.defect? = none ∧ nestedParts.request? ⟨0⟩ = some ⟨⟨7⟩, some ⟨0⟩, [⟨4⟩]⟩ ∧
      nestedParts.Constituents ⟨7⟩ ⟨6⟩ ⟨"I", some ⟨1⟩, ⟨5⟩, []⟩ [⟨4⟩] ∧
      nestedParts.problemsM (m := Strict) ⟨⟨7⟩, some ⟨0⟩, [⟨4⟩]⟩ ⟨[⟨6⟩], [], false⟩ =
        .ok ⟨false, [], [⟨6⟩], false⟩ ∧
      ∃ x, x ≠ ⟨4⟩ ∧ nestedParts.Shows (some ⟨1⟩) ⟨4⟩ x ∧
        ¬ nestedParts.AsksFor (some ⟨0⟩) ⟨7⟩ x := by
  obtain ⟨stand, _, follows⟩ := constituents_stand_for_whole_iff nestedParts nestedParts_valid
    nestedParts_request nestedParts_constituents
    (rfl : (⟨[⟨6⟩], [], false⟩ : Usage).interfaces = [⟨6⟩]) rfl
  have run : nestedParts.problemsM (m := Strict) ⟨⟨7⟩, some ⟨0⟩, [⟨4⟩]⟩ ⟨[⟨6⟩], [], false⟩ =
      .ok ⟨false, [], [⟨6⟩], false⟩ := by
    decide +kernel
  refine ⟨nestedParts_valid, nestedParts_request, nestedParts_constituents, run, ?_⟩
  by_contra asked
  push Not at asked
  have blamed : _ = [] := stand.mpr (.inr fun e he x hne hshows => by
    obtain rfl := List.mem_singleton.mp he
    exact asked x hne hshows)
  rw [← follows.eq_of_ok run] at blamed
  cases blamed

/-- The variable embeds all that the interface embeds and is blamed for the interface. -/
theorem nestedParts_blamed :
    nestedParts.defect? = none ∧ nestedParts.request? ⟨0⟩ = some ⟨⟨7⟩, some ⟨0⟩, [⟨4⟩]⟩ ∧
      nestedParts.Constituents ⟨7⟩ ⟨6⟩ ⟨"I", some ⟨1⟩, ⟨5⟩, []⟩ [⟨4⟩] ∧
      ∃ verdict, nestedParts.problemsM (m := Strict) ⟨⟨7⟩, some ⟨0⟩, [⟨4⟩]⟩ ⟨[⟨6⟩], [], false⟩ =
        .ok verdict ∧ verdict.unrequested = [⟨6⟩] :=
  ⟨nestedParts_valid, nestedParts_request, nestedParts_constituents, ⟨false, [], [⟨6⟩], false⟩,
    by decide +kernel, rfl⟩

end LeastContext.Program

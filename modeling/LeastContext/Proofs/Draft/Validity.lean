import LeastContext.Proofs.Draft.Trees
import LeastContext.Proofs.WellFormed

namespace LeastContext.Draft

variable {d : Draft}

/-- A typed step that is given handles that resolve answers with such handles. -/
theorem step_advances (sound : d.Sound) (step : Step) (typed : step.isTyped = true)
    (h : d.Resolves step.handles) : d.Advances (step.take.run d) Answer.handles := by
  cases step with
  | addType form | addObject object | pushDecl decl => cases typed
  | home => exact .map (home_advances sound) fun _ _ hr => hr
  | package path name => exact .map (package_advances sound path name) fun _ _ hr => hr
  | file name => exact .map (beginFile_advances sound name) fun _ _ hr => hr
  | basic name => exact .map (basic_advances sound name) fun _ _ hr => hr
  | pointer elem | slice elem => exact .map (addType_advances sound h) fun _ _ hr => hr
  | signature params results variadic =>
    exact .map (signature_advances sound h variadic) fun _ _ hr => hr
  | boundSignature params results =>
    exact .map (boundSignature_advances sound h) fun _ _ hr => hr
  | interface methods embeds => exact .map (interface_advances sound h) fun _ _ hr => hr
  | struct fields embeds => exact .map (structOf_advances sound h) fun _ _ hr => hr
  | named pkg name underlying => exact .map (named_advances sound h name) fun _ _ hr => hr
  | namedInterface pkg name methods embeds =>
    exact .map (namedInterface_advances sound h name) fun _ _ hr => hr
  | addMethod type name sig pointerReceiver =>
    exact .map (addMethod_advances sound h name pointerReceiver) fun _ _ hr => hr
  | var name type => exact .map (var_advances sound h name) fun _ _ hr => hr
  | func pkg name sig => exact .map (func_advances sound h name) fun _ _ hr => hr
  | builtin name => exact .map (builtin_advances sound name) fun _ _ hr => hr
  | typeDecl type => exact .map (typeDecl_advances sound h) fun _ _ hr => hr
  | funcDecl name params results body =>
    obtain ⟨hgiven, hbody⟩ := resolves_append.mp h
    refine .bind (stmtSketches_advances sound body hbody) ?_
    intro body d₁ sound₁ grows₁ hbody
    exact .map (funcDecl_advances sound₁ (grows₁.resolves hgiven) (resolves_flatMap.mp hbody) name)
      fun _ _ hr => hr
  | methodDecl type pointerReceiver name params results body =>
    rw [Step.handles, ← List.cons_append] at h
    obtain ⟨hgiven, hbody⟩ := resolves_append.mp h
    refine .bind (stmtSketches_advances sound body hbody) ?_
    intro body d₁ sound₁ grows₁ hbody
    exact .map (methodDecl_advances sound₁ (grows₁.resolves hgiven) (resolves_flatMap.mp hbody)
      pointerReceiver name) fun _ _ hr => hr
  | defIdent object =>
    exact .get (.pure sound (knows_defIdent (h _ (List.mem_singleton_self _))))
  | expr sketch => exact .map (exprSketch_advances sound sketch h) fun _ _ hr => hr
  | stmt sketch => exact .map (stmtSketch_advances sound sketch h) fun _ _ hr => hr

/-- Step after step a traceable run stays sound. The answers before the first step are those in
the past. -/
theorem takeAll_sound (sound : d.Sound) {past : List Answer}
    (known : ∀ answer ∈ past, d.Resolves answer.handles) {steps : List Step}
    (typed : ∀ step ∈ steps, step.isTyped = true)
    (traced : ∀ i (h : i < steps.length), ∀ r ∈ (steps.get ⟨i, h⟩).handles,
      ∃ answer ∈ past ++ ((takeAll steps).run d).1.take i, r ∈ answer.handles) :
    ((takeAll steps).run d).2.Sound := by
  induction steps generalizing d past with
  | nil => exact sound
  | cons step steps ih =>
    have given : d.Resolves step.handles := by
      intro r hr
      obtain ⟨answer, hanswer, hr⟩ := traced 0 (Nat.zero_lt_succ _) r hr
      rw [List.take_zero, List.append_nil] at hanswer
      exact known answer hanswer r hr
    have first := step_advances sound step (typed step List.mem_cons_self) given
    have known' : ∀ answer ∈ past ++ [(step.take.run d).1],
        (step.take.run d).2.Resolves answer.handles := by
      intro answer hanswer
      rcases List.mem_append.mp hanswer with hanswer | hanswer
      · exact first.grows.resolves (known answer hanswer)
      · rw [List.mem_singleton.mp hanswer]
        exact first.resolves
    refine ih first.sound known' ?_ ?_
    · exact fun other hother => typed other (List.mem_cons_of_mem _ hother)
    · intro i hi r hr
      obtain ⟨answer, hanswer, hr⟩ := traced (i + 1) (Nat.succ_lt_succ hi) r hr
      refine ⟨answer, ?_, hr⟩
      rw [List.append_assoc]
      exact hanswer

theorem start_sound (path name : String) : (start path name).Sound := by
  constructor <;> simp [start, Resolves, Program.resolves, Program.form_def, TypeForm.references]

namespace Sound

theorem resolved (sound : d.Sound) {r : Reference} (h : d.program.Mentions r) :
    d.program.resolves r = true := by
  cases h with
  | analyzed => exact sound.home _ (List.mem_singleton_self _)
  | type hform hr =>
    obtain ⟨id, _, rfl⟩ := Program.mem_types.mp hform
    exact sound.types id r (TypeForm.mem_references.mpr hr)
  | object hobject hr => exact sound.objects _ hobject r (Object.mem_references.mpr hr)
  | node hcontains hr =>
    obtain ⟨file, hfile, hpart⟩ := hcontains
    obtain ⟨referrer, hr⟩ := Node.mem_references.mpr hr
    apply sound.trees file hfile
    exact List.mem_flatMap.mpr ⟨_, Node.mem_all.mpr hpart, List.mem_map.mpr ⟨_, hr, rfl⟩⟩

theorem older_part (sound : d.Sound) {a b : TypeId} (h : (d.program.form a).Part b) :
    b.index < a.index :=
  sound.older a b (TypeForm.mem_references.mpr (.part h))

theorem older_underlying (sound : d.Sound) {id : TypeId} {decl : NamedType}
    (h : d.program.form id = .named decl) : decl.underlying.index < id.index := by
  apply sound.older id
  simp [h, TypeForm.references]

/-- A name is younger than what it stands for, so chains of names come to an end. -/
theorem founded (sound : d.Sound) (id : TypeId) :
    ∃ b, d.program.DefinedBy id b ∧ b.index ≤ id.index := by
  induction hn : id.index using Nat.strongRecOn generalizing id with
  | ind n ih =>
    cases hform : d.program.form id with
    | named decl =>
      have hlt := sound.older_underlying hform
      obtain ⟨b, ⟨names, hchain⟩, hle⟩ := ih _ (hn ▸ hlt) decl.underlying rfl
      exact ⟨b, ⟨id :: names, .link (Program.declaredAs_some hform) hchain⟩, by omega⟩
    | _ =>
      refine ⟨id, ⟨[], .stop ?_⟩, by omega⟩
      rw [Program.declaredAs_none, hform]
      rfl

theorem older_embed (sound : d.Sound) {a b : TypeId} (h : d.program.Embeds a b) :
    b.index < a.index := by
  obtain ⟨c, body, hdefined, hform, hembed⟩ := h
  obtain ⟨c', hdefined', hle⟩ := sound.founded a
  rw [← hdefined.unique hdefined'] at hle
  have hlt : b.index < c.index := by
    apply sound.older_part
    rw [hform]
    exact .embed hembed
  omega

theorem acyclic {R : TypeId → TypeId → Prop} (older : ∀ a b, R a b → b.index < a.index)
    (id : TypeId) : ¬ Relation.TransGen R id id := by
  have less : ∀ {a b}, Relation.TransGen R a b → b.index < a.index := by
    intro a b h
    induction h with
    | single h => exact older _ _ h
    | tail _ h ih => exact Nat.lt_trans (older _ _ h) ih
  exact fun h => Nat.lt_irrefl _ (less h)

theorem wellFormed (sound : d.Sound) : d.program.WellFormed where
  resolved := fun _ h => sound.resolved h
  founded := by
    intro id _
    obtain ⟨b, h, _⟩ := sound.founded id
    exact ⟨b, h⟩
  parts_acyclic := acyclic fun _ _ h => sound.older_part h
  embeds_acyclic := acyclic fun _ _ h => sound.older_embed h

end Sound

end LeastContext.Draft

namespace LeastContext.Program

open Draft

/-- A package written by typed steps, each given only what earlier ones answered, has no defect. -/
theorem drafted_program_is_valid (path name : String) (steps : List Step)
    (typed : ∀ step ∈ steps, step.isTyped = true)
    (traceable : Traceable steps (Program.draft path name steps).1) :
    (Program.draft path name steps).2.defect? = none := by
  have sound : ((takeAll steps).run (.start path name)).2.Sound := by
    have known : ∀ answer ∈ ([] : List Answer), (start path name).Resolves answer.handles := by
      simp
    exact takeAll_sound (start_sound path name) known typed traceable
  exact sound.wellFormed.defect?

/-- A handler whose method calls one of its context, from inside a function literal. -/
def handlerSteps : List Step := [
  .home,
  .package "context" "context",
  .basic "error",
  .signature [] [⟨0⟩] false,
  .namedInterface ⟨1⟩ "Context" [("Err", ⟨1⟩)] [],
  .file "handler.go",
  .struct [("ctx", ⟨3⟩)] [],
  .named ⟨0⟩ "Handler" ⟨4⟩,
  .typeDecl ⟨5⟩,
  .var "ctx" ⟨3⟩,
  .methodDecl ⟨5⟩ true "Serve" [⟨2⟩] [⟨0⟩]
    [.expr (.funcLit [] [.expr (.methodCall (.use ⟨2⟩) "Err" ⟨1⟩ [])])]]

theorem handlerSteps_valid :
    (∀ step ∈ handlerSteps, step.isTyped = true) ∧
    Traceable handlerSteps (Program.draft "example.com/web" "web" handlerSteps).1 ∧
    (Program.draft "example.com/web" "web" handlerSteps).2.defect? = none := by
  have typed : ∀ step ∈ handlerSteps, step.isTyped = true := by decide
  have traceable :
      Traceable handlerSteps (Program.draft "example.com/web" "web" handlerSteps).1 := by
    unfold Traceable
    decide +kernel
  exact ⟨typed, traceable,
    drafted_program_is_valid "example.com/web" "web" handlerSteps typed traceable⟩

end LeastContext.Program

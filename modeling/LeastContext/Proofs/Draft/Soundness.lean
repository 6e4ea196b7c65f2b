import LeastContext.Proofs.Draft.Handles
import LeastContext.Proofs.Underlying

namespace LeastContext.Draft

/-- All of some handles point into the tables of a draft. -/
def Resolves (d : Draft) (handles : List Reference) : Prop :=
  ∀ r ∈ handles, d.program.resolves r = true

/-- All handles in a tree resolve. -/
def Knows (d : Draft) (node : Node) : Prop :=
  d.Resolves node.handles

/-- What resolves in one draft resolves in another. -/
def Grows (d d' : Draft) : Prop :=
  ∀ r, d.program.resolves r = true → d'.program.resolves r = true

/-- All handles resolve, and types refer to older types only, apart from the methods attached to
names. -/
structure Sound (d : Draft) : Prop where
  home : d.Resolves [.package d.program.package]
  types : ∀ id, d.Resolves (d.program.form id).references
  older : ∀ id part, .type part ∈ (d.program.form id).references → part.index < id.index
  objects : ∀ object ∈ d.program.objects, d.Resolves object.references
  trees : ∀ file ∈ d.program.files, d.Knows (.file file)
  names : ∀ entry ∈ d.typeNames, d.Resolves [.object entry.2]

/-- From a draft to a result with another draft: that one is sound, all that resolved before
resolves there, and so does what the result gives. -/
structure Advances {α : Type} (d : Draft) (result : α × Draft) (gives : α → List Reference) :
    Prop where
  sound : result.2.Sound
  grows : d.Grows result.2
  resolves : result.2.Resolves (gives result.1)

section Resolving

variable {d d' : Draft} {r : Reference} {rs rs' : List Reference} {node : Node}

@[simp] theorem resolves_nil : d.Resolves [] := by
  simp [Resolves]

@[simp] theorem resolves_cons :
    d.Resolves (r :: rs) ↔ d.program.resolves r = true ∧ d.Resolves rs := by
  simp [Resolves]

@[simp] theorem resolves_append : d.Resolves (rs ++ rs') ↔ d.Resolves rs ∧ d.Resolves rs' := by
  simp only [Resolves, List.mem_append]
  grind

theorem resolves_flatMap {α : Type} {f : α → List Reference} {xs : List α} :
    d.Resolves (xs.flatMap f) ↔ ∀ x ∈ xs, d.Resolves (f x) := by
  simp only [Resolves, List.mem_flatMap]
  grind

theorem resolves_map {α : Type} {f : α → Reference} {xs : List α} :
    d.Resolves (xs.map f) ↔ ∀ x ∈ xs, d.program.resolves (f x) = true := by
  simp [Resolves]

/-- A tree is known if what it holds itself resolves and its parts are known. -/
theorem knows_iff : d.Knows node ↔ (∀ r ∈ node.references, d.program.resolves r.2 = true) ∧
    ∀ child ∈ node.children, d.Knows child := by
  rw [Knows, Node.handles_eq, resolves_append, resolves_map, resolves_flatMap]
  rfl

theorem Resolves.subset (h : d.Resolves rs) (sub : ∀ r ∈ rs', r ∈ rs) : d.Resolves rs' :=
  fun r hr => h r (sub r hr)

theorem Grows.refl (d : Draft) : d.Grows d :=
  fun _ h => h

theorem Grows.trans {d'' : Draft} (h : d.Grows d') (h' : d'.Grows d'') : d.Grows d'' :=
  fun r hr => h' r (h r hr)

theorem Grows.resolves (h : d.Grows d') (hr : d.Resolves rs) : d'.Resolves rs :=
  fun r hm => h r (hr r hm)

theorem Grows.knows (h : d.Grows d') (hn : d.Knows node) : d'.Knows node :=
  h.resolves hn

/-- Tables that are no shorter resolve no less. -/
theorem Grows.of_size (packages : d.program.packages.size ≤ d'.program.packages.size)
    (types : d.program.types.size ≤ d'.program.types.size)
    (objects : d.program.objects.size ≤ d'.program.objects.size) : d.Grows d' := by
  intro r hr
  cases r <;> simp only [Program.resolves, decide_eq_true_eq] at hr ⊢ <;> omega

theorem Resolves.congr (package : d'.program.packages.size = d.program.packages.size)
    (types : d'.program.types.size = d.program.types.size)
    (objects : d'.program.objects.size = d.program.objects.size) :
    d'.Resolves rs ↔ d.Resolves rs := by
  have same : ∀ r, d'.program.resolves r = d.program.resolves r := by
    intro r
    cases r <;> simp [Program.resolves, package, types, objects]
  simp only [Resolves, same]

end Resolving

section Advancing

variable {α β : Type} {d : Draft} {gives : α → List Reference} {gives' : β → List Reference}

theorem Advances.pure (sound : d.Sound) {a : α} (h : d.Resolves (gives a)) :
    d.Advances (a, d) gives :=
  ⟨sound, .refl d, h⟩

/-- One step after another. -/
theorem Advances.bind {m : Drafting α} {f : α → Drafting β} (first : d.Advances (m.run d) gives)
    (second : ∀ a d', d'.Sound → d.Grows d' → d'.Resolves (gives a) →
      d'.Advances ((f a).run d') gives') :
    d.Advances ((m >>= f).run d) gives' := by
  have h := second (m.run d).1 (m.run d).2 first.sound first.grows first.resolves
  exact ⟨h.sound, first.grows.trans h.grows, h.resolves⟩

/-- What is read off a draft is known of that draft. -/
theorem Advances.get {f : Draft → Drafting α} (h : d.Advances ((f d).run d) gives) :
    d.Advances ((get >>= f).run d) gives :=
  h

theorem Advances.map {m : Drafting α} {f : α → β} (h : d.Advances (m.run d) gives)
    (sub : ∀ a, ∀ r ∈ gives' (f a), r ∈ gives a) :
    d.Advances ((do return f (← m)).run d) gives' :=
  .bind h fun a _ sound' _ ha => .pure sound' (ha.subset (sub a))

theorem Advances.mapM {xs : List α} {f : α → Drafting β}
    (each : ∀ x ∈ xs, ∀ d', d'.Sound → d.Grows d' → d'.Advances ((f x).run d') gives')
    (sound : d.Sound) :
    d.Advances ((xs.mapM f).run d) fun ys => ys.flatMap gives' := by
  induction xs generalizing d with
  | nil => exact .pure sound (by simp)
  | cons x xs ih =>
    rw [List.mapM_cons]
    refine .bind (each x List.mem_cons_self d sound (.refl d)) ?_
    intro y d₁ sound₁ grows₁ hy
    refine .bind (ih (fun x' hx' d' sound' grows' => ?_) sound₁) ?_
    · exact each x' (List.mem_cons_of_mem _ hx') d' sound' (grows₁.trans grows')
    · intro ys d₂ sound₂ grows₂ hys
      refine .pure sound₂ ?_
      rw [List.flatMap_cons, resolves_append]
      exact ⟨grows₂.resolves hy, hys⟩

end Advancing

section Tables

variable {d : Draft}

theorem home_advances (sound : d.Sound) :
    d.Advances (home.run d) fun id => [.package id] :=
  .pure sound sound.home

/-- A draft with the same tables and files that resolve is sound. -/
theorem Sound.withFiles (sound : d.Sound) {files : List SourceFile} {file : Option FileId}
    {line : UInt32} (h : ∀ f ∈ files, d.Knows (.file f)) :
    Sound { d with program := { d.program with files }, file, line } :=
  ⟨sound.home, sound.types, sound.older, sound.objects, h, sound.names⟩

theorem package_advances (sound : d.Sound) (path name : String) :
    d.Advances ((package path name).run d) fun id => [.package id] := by
  refine .get ?_
  cases hfound : d.program.packages.findIdx? (·.path = path) with
  | some i =>
    have hi : i < d.program.packages.size := by
      obtain ⟨h, _⟩ := Array.findIdx?_eq_some_iff_getElem.mp hfound
      exact h
    exact .pure sound (by simp [Program.resolves, hi])
  | none =>
    let program := { d.program with packages := d.program.packages.push ⟨path, name⟩ }
    have grows : d.Grows { d with program } :=
      .of_size (by simp [program]) (Nat.le_refl _) (Nat.le_refl _)
    have new : Draft.Resolves { d with program } [.package ⟨d.program.packages.size⟩] := by
      simp [Program.resolves, program]
    exact ⟨⟨grows.resolves sound.home, fun id => grows.resolves (sound.types id), sound.older,
      fun o ho => grows.resolves (sound.objects o ho),
      fun f hf => grows.resolves (sound.trees f hf),
      fun e he => grows.resolves (sound.names e he)⟩, grows, new⟩

theorem beginFile_advances (sound : d.Sound) (name : String) :
    d.Advances ((beginFile name).run d) fun _ => [] := by
  refine ⟨sound.withFiles ?_, .refl d, resolves_nil⟩
  intro f hf
  rcases List.mem_append.mp hf with hf | hf
  · exact sound.trees f hf
  · rw [List.mem_singleton.mp hf, knows_iff]
    simp [Node.references, Node.children]

theorem currentFile_advances (sound : d.Sound) :
    d.Advances (currentFile.run d) fun _ => [] := by
  refine .get ?_
  cases d.file with
  | some id => exact .pure sound resolves_nil
  | none => exact beginFile_advances sound "main.go"

theorem nextPosition_advances (sound : d.Sound) :
    d.Advances (nextPosition.run d) fun _ => [] := by
  refine .bind (currentFile_advances sound) ?_
  intro file d₁ sound₁ _ _
  exact ⟨sound₁.withFiles sound₁.trees, .refl d₁, resolves_nil⟩

theorem addType_run (form : TypeForm) (d : Draft) : (addType form).run d =
    (⟨d.program.types.size⟩,
      { d with program := { d.program with types := d.program.types.push form } }) :=
  rfl

theorem addObject_run (object : Object) (d : Draft) : (addObject object).run d =
    (⟨d.program.objects.size⟩,
      { d with program := { d.program with objects := d.program.objects.push object } }) :=
  rfl

theorem form_push (p : Program) (form : TypeForm) (id : TypeId) :
    { p with types := p.types.push form }.form id =
      if id.index = p.types.size then form else p.form id := by
  simp only [Program.form_def, Array.getD_eq_getD_getElem?, Array.getElem?_push]
  split <;> simp

/-- A new type may refer to all that is there, and nothing refers to it yet. -/
theorem addType_advances (sound : d.Sound) {form : TypeForm} (h : d.Resolves form.references) :
    d.Advances ((addType form).run d) fun id => [.type id] := by
  rw [addType_run]
  have grows : d.Grows
      { d with program := { d.program with types := d.program.types.push form } } :=
    .of_size (Nat.le_refl _) (by simp) (Nat.le_refl _)
  refine ⟨⟨grows.resolves sound.home, ?_, ?_, fun o ho => grows.resolves (sound.objects o ho),
    fun f hf => grows.resolves (sound.trees f hf),
    fun e he => grows.resolves (sound.names e he)⟩, grows, ?_⟩
  · intro id
    rw [form_push]
    split
    · exact grows.resolves h
    · exact grows.resolves (sound.types id)
  · intro id part hpart
    rw [form_push] at hpart
    split at hpart
    · rename_i hid
      rw [hid]
      simpa [Program.resolves] using h _ hpart
    · exact sound.older id part hpart
  · simp [Program.resolves]

theorem addObject_advances (sound : d.Sound) {object : Object} (h : d.Resolves object.references) :
    d.Advances ((addObject object).run d) fun id => [.object id] := by
  rw [addObject_run]
  have grows : d.Grows
      { d with program := { d.program with objects := d.program.objects.push object } } :=
    .of_size (Nat.le_refl _) (Nat.le_refl _) (by simp)
  refine ⟨⟨grows.resolves sound.home, fun id => grows.resolves (sound.types id), sound.older, ?_,
    fun f hf => grows.resolves (sound.trees f hf),
    fun e he => grows.resolves (sound.names e he)⟩, grows, ?_⟩
  · intro o ho
    rcases Array.mem_push.mp ho with ho | rfl
    · exact grows.resolves (sound.objects o ho)
    · exact grows.resolves h
  · simp [Program.resolves]

theorem basic_advances (sound : d.Sound) (name : String) :
    d.Advances ((basic name).run d) fun id => [.type id] := by
  refine .get ?_
  cases hfound : d.program.types.findIdx? (· = .basic name) with
  | some i =>
    obtain ⟨hi, _⟩ := Array.findIdx?_eq_some_iff_getElem.mp hfound
    exact .pure sound (by simp [Program.resolves, hi])
  | none => exact addType_advances sound (by simp [TypeForm.references])

theorem Sound.object (sound : d.Sound) (id : ObjectId) :
    d.Resolves (d.program.object id).references := by
  by_cases hid : id.index < d.program.objects.size
  · apply sound.objects
    simp [Program.object_def, Array.getD, hid]
  · simp [Program.object_def, Array.getD, hid, Object.references, ObjectKind.references]

theorem Sound.objectType (sound : d.Sound) {id : ObjectId} {type : TypeId}
    (h : (d.program.object id).type = some type) : d.program.resolves (.type type) = true := by
  apply sound.object id
  simp [Object.references, h]

theorem Sound.typeName (sound : d.Sound) {id : TypeId} {object : ObjectId}
    (h : d.typeName? id = some object) : d.program.resolves (.object object) = true := by
  obtain ⟨before, after, hsplit, _⟩ := List.lookup_eq_some_iff.mp h
  apply sound.names (id, object)
  · simp [hsplit]
  · simp

/-- The chain of definitions stays among the types that are there. -/
theorem Sound.underlying (sound : d.Sound) {id : TypeId}
    (h : d.program.resolves (.type id) = true) :
    d.program.resolves (.type (d.program.underlying id)) = true := by
  have within : ∀ steps id, d.program.resolves (.type id) = true →
      d.program.resolves (.type (d.program.underlyingWithin steps id)) = true := by
    intro steps
    induction steps with
    | zero => exact fun id h => h
    | succ steps ih =>
      intro id h
      rw [Program.underlyingWithin_succ]
      split
      · rename_i decl hdecl
        split
        · exact h
        · apply ih
          apply sound.types id
          simp [hdecl, TypeForm.references]
      · exact h
  exact within _ id h

theorem objectType_advances (sound : d.Sound) (id : ObjectId) :
    d.Advances ((objectType id).run d) fun type => [.type type] := by
  refine .get ?_
  cases htype : (d.program.object id).type with
  | some type => exact .pure sound (by simpa using sound.objectType htype)
  | none => exact basic_advances sound "invalid"

theorem boundSignature_advances (sound : d.Sound) {params : List ObjectId} {results : List TypeId}
    (h : d.Resolves (params.map .object ++ results.map .type)) :
    d.Advances ((boundSignature params results).run d) fun id => [.type id] := by
  rw [resolves_append, resolves_map] at h
  have hparams : d.Advances ((params.mapM fun object => do
      return ({ type := ← objectType object, object := some object } : Param)).run d)
      fun params => params.flatMap fun param =>
        .type param.type :: param.object.toList.map .object := by
    refine .mapM ?_ sound
    intro object hobject d₁ sound₁ grows₁
    refine .bind (objectType_advances sound₁ object) ?_
    intro type d₂ sound₂ grows₂ htype
    refine .pure sound₂ ?_
    simpa using ⟨htype _ (by simp), grows₂ _ (grows₁ _ (h.1 object hobject))⟩
  refine .bind hparams ?_
  intro params d₁ sound₁ grows₁ hparams
  apply addType_advances sound₁
  rw [TypeForm.references, resolves_append]
  exact ⟨hparams, grows₁.resolves h.2⟩

theorem withMethod_references {method : DeclaredMethod} {form : TypeForm} {r : Reference}
    (h : r ∈ (withMethod method form).references) :
    r ∈ form.references ∨ r = .object method.func := by
  cases form <;> simp [withMethod, TypeForm.references] at h ⊢ <;> grind

theorem form_attach (p : Program) (type : TypeId) (method : DeclaredMethod) {id : TypeId}
    {r : Reference}
    (h : r ∈ ({ p with types := p.types.modify type.index (withMethod method) }.form
      id).references) : r ∈ (p.form id).references ∨ r = .object method.func := by
  simp only [Program.form_def, Array.getD_eq_getD_getElem?, Array.getElem?_modify] at h ⊢
  split at h
  · cases hold : p.types[id.index]? with
    | none => simp [hold, TypeForm.references] at h
    | some form =>
      simp only [hold, Option.map_some, Option.getD_some] at h
      exact withMethod_references h
  · exact .inl h

/-- Methods attached to a name are the only way in which a type changes. -/
theorem Sound.attach (sound : d.Sound) {method : DeclaredMethod}
    (h : d.Resolves [.object method.func]) (type : TypeId) :
    d.Advances ((), { d with program := { d.program with
      types := d.program.types.modify type.index (withMethod method) } }) fun _ => [] := by
  have same : ∀ {rs}, Resolves { d with program := { d.program with
      types := d.program.types.modify type.index (withMethod method) } } rs ↔ d.Resolves rs :=
    Resolves.congr rfl (by simp) rfl
  refine ⟨⟨same.mpr sound.home, ?_, ?_, fun o ho => same.mpr (sound.objects o ho),
    fun f hf => same.mpr (sound.trees f hf), fun e he => same.mpr (sound.names e he)⟩,
    .of_size (Nat.le_refl _) (by simp) (Nat.le_refl _), resolves_nil⟩
  · intro id
    apply same.mpr
    intro r hr
    rcases form_attach d.program type method hr with hr | rfl
    · exact sound.types id r hr
    · exact h _ (List.mem_singleton_self _)
  · intro id part hpart
    rcases form_attach d.program type method hpart with hpart | hpart
    · exact sound.older id part hpart
    · cases hpart

theorem addMethod_advances (sound : d.Sound) {type sig : TypeId}
    (h : d.Resolves [.type type, .type sig]) (name : String) (pointerReceiver : Bool) :
    d.Advances ((addMethod type name sig pointerReceiver).run d) fun id => [.object id] := by
  simp only [resolves_cons, resolves_nil, and_true] at h
  refine .get (.bind (addObject_advances sound ?_) ?_)
  · simp only [Object.references, ObjectKind.references, resolves_append]
    refine ⟨⟨?_, by simpa using h.2⟩, by simpa using h.1⟩
    -- the method is of the package of its type, which the type refers to
    have hreferences := sound.types type
    cases hform : d.program.form type with
    | named decl =>
      rw [hform, TypeForm.references, resolves_append, resolves_append] at hreferences
      exact hreferences.1.1
    | _ => exact resolves_nil
  · intro func d₁ sound₁ _ hfunc
    have hattach : d₁.Resolves [.object (DeclaredMethod.mk func pointerReceiver).func] := hfunc
    refine .bind (sound₁.attach hattach type) ?_
    intro _ d₂ sound₂ grows₂ _
    exact .pure sound₂ (grows₂.resolves hfunc)

/-- The object that names a type. -/
theorem nameType_advances (sound : d.Sound) {pkg : PackageId} {id : TypeId}
    (h : d.Resolves [.package pkg, .type id]) (name : String) (pos : Option Position) :
    d.Advances ((do
      let object ← addObject
        { name, kind := .typeName, package := some pkg, type := some id, pos }
      modify fun draft => { draft with typeNames := draft.typeNames ++ [(id, object)] }
      return id : Drafting TypeId).run d) fun id => [.type id] := by
  refine .bind (addObject_advances sound ?_) ?_
  · simpa [Object.references, ObjectKind.references] using h
  · intro object d₁ sound₁ grows₁ hobject
    have hid : d.Resolves [.type id] := h.subset (by simp)
    refine ⟨⟨sound₁.home, sound₁.types, sound₁.older, sound₁.objects, sound₁.trees, ?_⟩,
      .refl d₁, grows₁.resolves hid⟩
    intro entry he
    rcases List.mem_append.mp he with he | he
    · exact sound₁.names entry he
    · rw [List.mem_singleton.mp he]
      exact hobject

theorem named_advances (sound : d.Sound) {pkg : PackageId} {underlying : TypeId}
    (h : d.Resolves [.package pkg, .type underlying]) (name : String) :
    d.Advances ((named pkg name underlying).run d) fun id => [.type id] := by
  refine .bind (addType_advances sound ?_) ?_
  · simpa [TypeForm.references] using h
  · intro id d₁ sound₁ grows₁ hid
    have given : d₁.Resolves [.package pkg, .type id] := by
      have hpkg : d₁.Resolves [.package pkg] := grows₁.resolves (h.subset (by simp))
      simpa using And.intro hpkg hid
    refine .bind (home_advances sound₁) ?_
    intro current d₂ sound₂ grows₂ _
    split
    · have hnext := nextPosition_advances sound₂
      have hsome : d₂.Advances ((some <$> nextPosition).run d₂) fun _ => [] :=
        ⟨hnext.sound, hnext.grows, resolves_nil⟩
      refine .bind hsome ?_
      intro pos d₃ sound₃ grows₃ _
      exact nameType_advances sound₃ ((grows₂.trans grows₃).resolves given) name pos
    · exact nameType_advances sound₂ (grows₂.resolves given) name none

theorem interfaceOf_advances (sound : d.Sound) {pkg : PackageId}
    {methods : List (String × TypeId)} {embeds : List TypeId}
    (h : d.Resolves (.package pkg ::
      (methods.map (fun method => .type method.2) ++ embeds.map .type))) :
    d.Advances ((interfaceOf pkg methods embeds).run d) fun id => [.type id] := by
  apply addType_advances sound
  rw [resolves_cons, resolves_append, resolves_map] at h
  rw [TypeForm.references, resolves_append]
  refine ⟨?_, h.2.2⟩
  rw [List.flatMap_map, resolves_flatMap]
  intro method hm
  simpa using ⟨h.1, h.2.1 method hm⟩

theorem interface_advances (sound : d.Sound) {methods : List (String × TypeId)}
    {embeds : List TypeId}
    (h : d.Resolves (methods.map (fun method => .type method.2) ++ embeds.map .type)) :
    d.Advances ((Draft.interface methods embeds).run d) fun id => [.type id] := by
  refine .bind (home_advances sound) ?_
  intro current d₁ sound₁ grows₁ hcurrent
  apply interfaceOf_advances sound₁
  exact resolves_cons.mpr ⟨hcurrent _ (List.mem_singleton_self _), grows₁.resolves h⟩

theorem namedInterface_advances (sound : d.Sound) {pkg : PackageId}
    {methods : List (String × TypeId)} {embeds : List TypeId}
    (h : d.Resolves (.package pkg ::
      (methods.map (fun method => .type method.2) ++ embeds.map .type))) (name : String) :
    d.Advances ((namedInterface pkg name methods embeds).run d) fun id => [.type id] := by
  refine .bind (interfaceOf_advances sound h) ?_
  intro body d₁ sound₁ grows₁ hbody
  exact named_advances sound₁ (resolves_cons.mpr ⟨grows₁ _ (resolves_cons.mp h).1, hbody⟩) name

theorem signature_advances (sound : d.Sound) {params results : List TypeId}
    (h : d.Resolves (params.map .type ++ results.map .type)) (variadic : Bool) :
    d.Advances ((Draft.signature params results variadic).run d) fun id => [.type id] := by
  apply addType_advances sound
  obtain ⟨hparams, hresults⟩ := resolves_append.mp h
  rw [TypeForm.references, resolves_append, List.flatMap_map, resolves_flatMap]
  refine ⟨?_, hresults⟩
  intro type htype
  simpa using resolves_map.mp hparams type htype

theorem structOf_advances (sound : d.Sound) {fields : List (String × TypeId)}
    {embeds : List TypeId}
    (h : d.Resolves (fields.map (fun field => .type field.2) ++ embeds.map .type)) :
    d.Advances ((structOf fields embeds).run d) fun id => [.type id] := by
  refine .get (addType_advances sound ?_)
  rw [TypeForm.references, List.map_append, List.map_map, List.map_map]
  exact h

theorem var_advances (sound : d.Sound) {type : TypeId} (h : d.Resolves [.type type])
    (name : String) : d.Advances ((var name type).run d) fun id => [.object id] := by
  refine .bind (nextPosition_advances sound) ?_
  intro pos d₁ sound₁ grows₁ _
  refine .bind (home_advances sound₁) ?_
  intro current d₂ sound₂ grows₂ hcurrent
  apply addObject_advances sound₂
  have htype := (grows₁.trans grows₂).resolves h
  simpa [Object.references, ObjectKind.references] using And.intro hcurrent htype

theorem func_advances (sound : d.Sound) {pkg : PackageId} {sig : TypeId}
    (h : d.Resolves [.package pkg, .type sig]) (name : String) :
    d.Advances ((Draft.func pkg name sig).run d) fun id => [.object id] := by
  apply addObject_advances sound
  simpa [Object.references, ObjectKind.references] using h

theorem builtin_advances (sound : d.Sound) (name : String) :
    d.Advances ((builtin name).run d) fun id => [.object id] := by
  apply addObject_advances sound
  simp [Object.references, ObjectKind.references]

end Tables

end LeastContext.Draft

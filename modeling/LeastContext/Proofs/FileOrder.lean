import LeastContext.Proofs.Lists
import LeastContext.Proofs.Replacement
import LeastContext.Proofs.TrackedRecords

namespace LeastContext

open History Strict

theorem eqvGen_map {α β : Type} {R : α → α → Prop} {S : β → β → Prop} (f : α → β)
    (h : ∀ a b, R a b → S (f a) (f b)) {a b : α} (hab : Relation.EqvGen R a b) :
    Relation.EqvGen S (f a) (f b) := by
  have hequiv := (Relation.EqvGen.is_equivalence S).comap f
  apply hequiv.eqvGen_iff.mp
  apply Relation.EqvGen.mono _ a b hab
  intro x y hxy
  exact .rel _ _ (h x y hxy)

namespace Marking

/-- Whether a mark is counted as a use. -/
def counted (ledger : Ledger) : Mark → Bool
  | .interface object _ | .method object _ => (ledger.lookup object).isSome
  | .cached _ | .dropped _ => false

/-- Where nothing is dropped, the marks of tracked objects are counted, whatever their order. -/
theorem uses_foldl {history : History} {marking : Marking} (h : history.LeadsTo marking.ledger)
    {marks : List Mark} (kept : ∀ object, .dropped object ∉ marks) :
    (marks.foldl apply marking).uses =
      marking.uses + marks.countP (counted marking.ledger) := by
  induction marks generalizing history marking with
  | nil => simp
  | cons mark marks ih =>
    have kept' : ∀ object, .dropped object ∉ marks := by
      intro object hm
      exact kept object (List.mem_cons_of_mem _ hm)
    rcases mark_cases mark with ⟨object, use, rfl⟩ | ⟨object, rfl⟩
    · cases hl : marking.ledger.lookup object with
      | none =>
        rw [List.foldl_cons, apply_untracked hl, ih h kept', List.countP_cons]
        cases use <;> simp [counted, Use.mark, hl]
      | some v =>
        have hin : ∀ w ∈ (Operation.insert v use).arguments, marking.ledger.Has w := by
          simp [Operation.arguments, (Ledger.lookup_some hl).1]
        have hone :
            LeadsTo (.insert v use :: history) (marking.apply (use.mark object)).ledger := by
          rw [apply_tracked hl]
          exact h.perform (.insert v use) hin
        have hcounted : counted (marking.apply (use.mark object)).ledger =
            counted marking.ledger := by
          have hlookup : ∀ other, (marking.apply (use.mark object)).ledger.lookup other =
              marking.ledger.lookup other := by
            intro other
            ext w
            rw [hone.follows.lookup_iff, h.follows.lookup_iff]
            rfl
          funext mark
          cases mark <;> simp [counted, hlookup]
        rw [List.foldl_cons, ih hone kept', hcounted, List.countP_cons]
        cases use <;> simp [apply, counted, Use.mark, hl] <;> omega
    · exact absurd List.mem_cons_self (kept object)

end Marking

namespace Program

variable {p : Program} {settings : Settings} {files : List SourceFile}

/-- No call's callee refers to a function that takes cache keys. -/
def CallsNoKeyFunction (p : Program) (settings : Settings) : Prop :=
  ∀ callee args spread type, p.Contains (.expr ⟨.call callee args spread, type⟩) →
    ∀ f name, callee.RefersTo f → p.qualifiedName? f = some name →
      name ∉ settings.keyParamFunctions

theorem CallsNoKeyFunction.not_dropsAt (h : p.CallsNoKeyFunction settings) {e : Expr}
    (he : p.Contains (.expr e)) (object : ObjectId) : ¬ p.DropsAt settings e object := by
  intro hdrops
  cases hdrops with
  | keyParams hwraps =>
    obtain ⟨f, name, _, _, _, _, hf, hname, hkey, _⟩ := hwraps
    exact h _ _ _ _ he f name hf hname hkey

theorem marked_ascending {history : History} {ledger : Ledger} (h : history.LeadsTo ledger)
    (unbroken : (p.markUses settings ledger).2 = none) (object : ObjectId) :
    ((p.markUses settings ledger).1.ledger.recordOf object).Ascending := by
  obtain ⟨_, _, hleads⟩ := markUses_leadsTo h unbroken
  unfold Ledger.recordOf
  cases (p.markUses settings ledger).1.ledger.lookup object with
  | none => exact ⟨.nil, .nil⟩
  | some v => exact hleads.follows.ascending _

section Marked

variable {history : History} {ledger : Ledger} (h : history.LeadsTo ledger)
  (keyless : p.CallsNoKeyFunction settings) (unbroken : (p.markUses settings ledger).2 = none)
include h keyless unbroken

/-- Where nothing is dropped, marking leaves alone what is tracked and who shares a record. -/
theorem marked_frame :
    (∀ object, (p.markUses settings ledger).1.ledger.lookup object = ledger.lookup object) ∧
      ∀ v w, ledger.Has v → ledger.Has w →
        ((p.markUses settings ledger).1.ledger.root v =
          (p.markUses settings ledger).1.ledger.root w ↔ ledger.root v = ledger.root w) := by
  obtain ⟨ops, hops, hleads⟩ := markUses_leadsTo h unbroken
  have hkept : ∀ object, .untrack object ∉ ops := by
    intro object hm
    obtain ⟨e, he, hdrops⟩ := (markUses_drops unbroken).mp ((hops.untracked object).mp hm)
    exact keyless.not_dropsAt he object hdrops
  have hhas : ∀ v, ledger.Has v → (p.markUses settings ledger).1.ledger.Has v := by
    intro v hv
    rw [hleads.follows.has_iff, Issued, issued_append hops.not_track]
    exact h.follows.has_iff.mp hv
  constructor
  · intro object
    ext v
    rw [hleads.follows.lookup_iff, h.follows.lookup_iff, tracks_append hops.not_track, Newest,
      Newest, issued_append hops.not_track]
    simp [hkept]
  · intro v w hv hw
    rw [hleads.follows.connected v w (hhas v hv) (hhas w hw), connected_append hops.not_share,
      h.follows.connected v w hv hw]

theorem marked_sharesRecord (object other : ObjectId) :
    (p.markUses settings ledger).1.ledger.SharesRecord object other ↔
      ledger.SharesRecord object other := by
  obtain ⟨hlookup, hroot⟩ := marked_frame h keyless unbroken
  simp only [Ledger.SharesRecord, hlookup]
  refine exists_congr fun v => exists_congr fun w => ?_
  refine and_congr_right fun hv => and_congr_right fun hw => ?_
  exact hroot v w (Ledger.lookup_some hv).1 (Ledger.lookup_some hw).1

/-- Where nothing is dropped, the record of an object holds the uses of all that share it. -/
theorem marked_holds (unused : ∀ v use, .insert v use ∉ history) (object : ObjectId) (use : Use) :
    ((p.markUses settings ledger).1.ledger.recordOf object).Holds use ↔
      ∃ e other, p.Contains (.expr e) ∧ p.UsedAt settings e other use ∧
        ledger.SharesRecord other object := by
  obtain ⟨hlookup, _⟩ := marked_frame h keyless unbroken
  rw [Ledger.recordOf, hlookup]
  cases hv : ledger.lookup object with
  | none => simp [Usage.not_holds_empty, Ledger.SharesRecord, hv]
  | some v =>
    have hissued := h.follows.has_iff.mp (Ledger.lookup_some hv).1
    rw [Option.elim_some, marked_record h unused unbroken hissued]
    constructor
    · intro hsite
      obtain ⟨before, e, after, other, w, hsplit, hused, _, hw, hroot⟩ := hsite
      have he : e ∈ p.exprs := by simp [hsplit]
      exact ⟨e, other, mem_exprs.mp he, hused, w, v, hw, hv, hroot⟩
    · intro hsite
      obtain ⟨e, other, he, hused, w, v', hw, hv', hroot⟩ := hsite
      obtain rfl : v = v' := Option.some.inj (hv.symm.trans hv')
      obtain ⟨before, after, hsplit⟩ := List.append_of_mem (mem_exprs.mpr he)
      refine ⟨before, e, after, other, w, hsplit, hused, ?_, hw, hroot⟩
      intro d hd
      have hd' : d ∈ p.exprs := by simp [hsplit, hd]
      exact keyless.not_dropsAt (mem_exprs.mp hd') other

theorem marked_uses : (p.markUses settings ledger).1.uses =
    (p.exprs.flatMap (p.marksOf settings)).countP (Marking.counted ledger) := by
  have hmarks := (markExprs_marks unbroken).2
  have kept : ∀ object, .dropped object ∉ p.exprs.flatMap (p.marksOf settings) := by
    intro object hm
    obtain ⟨e, he, hdrops⟩ := (markUses_drops unbroken).mp hm
    exact keyless.not_dropsAt he object hdrops
  have hstart : history.LeadsTo (Marking.mk ledger 0).ledger := h
  rw [markUses_def, hmarks, Marking.uses_foldl hstart kept]
  simp

end Marked

section Pools

variable {past : History} {ledger ledger' : Ledger}

/-- After pooling, objects share a record if siblings lead from one to the other. -/
theorem pooled_sharesRecord (wf : p.WellFormed) (settings : Settings) (object other : ObjectId) :
    (p.pool (p.collect settings)).1.SharesRecord object other ↔
      ∃ v w, (p.collect settings).lookup object = some v ∧
        (p.collect settings).lookup other = some w ∧
        Relation.EqvGen (p.Siblings (p.collect settings)) v w := by
  have start := p.collect_leadsTo settings
  obtain ⟨shares, _, hpooled⟩ := p.pool_pooled start
  have separate : ∀ a b, .share a b ∉
      ((p.declaredObjects.filter (p.isTrackable settings)).map Operation.track).reverse := by
    intro a b hm
    obtain ⟨_, _, he⟩ := mem_tracks.mp hm
    cases he
  have hhas : ∀ {o v}, (p.collect settings).lookup o = some v →
      (p.pool (p.collect settings)).1.Has v := by
    intro o v hv
    exact (start.shared_has_iff hpooled.onlyShares hpooled.leads).mpr (Ledger.lookup_some hv).1
  simp only [Ledger.SharesRecord, start.shared_lookup hpooled.onlyShares hpooled.leads]
  refine exists_congr fun v => exists_congr fun w => ?_
  refine and_congr_right fun hv => and_congr_right fun hw => ?_
  rw [hpooled.leads.follows.connected v w (hhas hv) (hhas hw)]
  exact hpooled.connected_iff wf separate

theorem PointsTo.withFiles {type base : TypeId} (h : p.PointsTo type base)
    (files : List SourceFile) : (p.withFiles files).PointsTo type base := by
  induction h with
  | plain last => exact .plain last
  | pointer step _ ih => exact .pointer step ih

/-- Implementations stay, with their variables numbered anew. -/
theorem Implementation.renumber {φ : VarId → VarId}
    (hφ : ∀ o v, ledger.lookup o = some v → ledger'.lookup o = some (φ v)) {interface : TypeId}
    {key : MethodKey} {decl : FuncDecl} {v : VarId}
    (h : p.Implementation ledger interface key decl v) (files : List SourceFile) :
    (p.withFiles files).Implementation ledger' interface key decl (φ v) := by
  obtain ⟨⟨base, ⟨fields, first, type, hfields, hhead, htype, hbase⟩, himplements⟩, hname, hwanted,
    field, name, object, hfield, hfirst, hobject, hlookup⟩ := h
  have hmethod : (p.withFiles files).IsMethodOf decl base :=
    ⟨fields, first, type, hfields, hhead, htype, hbase.withFiles files⟩
  refine ⟨⟨base, hmethod, ?_⟩, hname, ?_, field, name, object, hfield, hfirst, hobject, ?_⟩
  · rw [pointerImplements_withFiles]
    exact himplements
  · rw [interfaceMethods_withFiles]
    exact hwanted
  · exact hφ object v hlookup

theorem NamesInterface.withFiles {interface : TypeId} (h : p.NamesInterface interface)
    (files : List SourceFile) : (p.withFiles files).NamesInterface interface := by
  obtain ⟨object, hobject, hkind, hpackage, htype, hinterface⟩ := h
  refine ⟨object, hobject, hkind, hpackage, htype, ?_⟩
  rw [isInterface_withFiles]
  exact hinterface

end Pools

theorem wellFormed_withFiles (wf : p.WellFormed) (h : ∀ file ∈ files, file ∈ p.files) :
    (p.withFiles files).WellFormed where
  resolved := by
    intro r hr
    apply wf.resolved r
    cases hr with
    | analyzed => exact .analyzed
    | type hform hr => exact .type hform hr
    | object hobject hr => exact .object hobject hr
    | node hcontains hr =>
      obtain ⟨file, hfile, hpart⟩ := hcontains
      exact .node ⟨file, h file hfile, hpart⟩ hr
  founded := wf.founded
  parts_acyclic := wf.parts_acyclic
  embeds_acyclic := wf.embeds_acyclic

section Reordered

variable (perm : files.Perm p.files)
include perm

theorem decls_perm : (p.withFiles files).decls.Perm p.decls := by
  simp only [decls, files_withFiles]
  exact perm.flatMap_right _

theorem contains_perm {node : Node} : (p.withFiles files).Contains node ↔ p.Contains node := by
  simp only [Contains, files_withFiles, perm.mem_iff]

theorem collected_perm (settings : Settings) (object : ObjectId) :
    (∃ v, ((p.withFiles files).collect settings).lookup object = some v) ↔
      ∃ v, (p.collect settings).lookup object = some v := by
  have hdeclared : (p.withFiles files).declaredObjects.Perm p.declaredObjects := by
    simp only [declaredObjects, files_withFiles]
    exact perm.flatMap_right _
  rw [← Ledger.sharesRecord_self, ← Ledger.sharesRecord_self,
    ← Ledger.mem_trackedObjects_iff (collect_leadsTo _ settings),
    ← Ledger.mem_trackedObjects_iff (collect_leadsTo _ settings), trackedObjects_collect,
    trackedObjects_collect, isTrackable_withFiles]
  simp [hdeclared.mem_iff]

theorem renumbers (settings : Settings) : ∃ φ : VarId → VarId, ∀ object v,
    (p.collect settings).lookup object = some v →
      ((p.withFiles files).collect settings).lookup object = some (φ v) := by
  refine ⟨fun v => (((p.withFiles files).collect settings).lookup
    ((p.collect settings).variableAt v).object).getD v, ?_⟩
  intro object v hv
  obtain ⟨w, hw⟩ := (collected_perm perm settings object).mpr ⟨v, hv⟩
  simp [(Ledger.lookup_some hv).2.2, hw]

/-- What shares a record in one order of the files does so in another. -/
theorem pooled_sharesRecord_mono (wf : p.WellFormed) {object other : ObjectId}
    (h : (p.pool (p.collect settings)).1.SharesRecord object other) :
    ((p.withFiles files).pool ((p.withFiles files).collect settings)).1.SharesRecord
      object other := by
  have wf' := wellFormed_withFiles wf fun file hfile => perm.mem_iff.mp hfile
  obtain ⟨φ, hφ⟩ := renumbers perm settings
  obtain ⟨v, w, hv, hw, hsiblings⟩ := (pooled_sharesRecord wf settings object other).mp h
  refine (pooled_sharesRecord wf' settings object other).mpr
    ⟨φ v, φ w, hφ object v hv, hφ other w hw, ?_⟩
  refine eqvGen_map φ ?_ hsiblings
  intro a b hab
  obtain ⟨interface, key, first, second, hnames, hfirst, ha, hsecond, hb⟩ := hab
  refine ⟨interface, key, first, second, hnames.withFiles files, ?_, ha.renumber hφ files, ?_,
    hb.renumber hφ files⟩
  · exact (decls_perm perm).mem_iff.mpr hfirst
  · exact (decls_perm perm).mem_iff.mpr hsecond

theorem pooled_sharesRecord_iff (wf : p.WellFormed) (object other : ObjectId) :
    ((p.withFiles files).pool ((p.withFiles files).collect settings)).1.SharesRecord object other ↔
      (p.pool (p.collect settings)).1.SharesRecord object other := by
  have wf' := wellFormed_withFiles wf fun file hfile => perm.mem_iff.mp hfile
  have back : p.files.Perm (p.withFiles files).files := perm.symm
  exact ⟨pooled_sharesRecord_mono back wf', pooled_sharesRecord_mono perm wf⟩

theorem implementations_perm (settings : Settings) (interface : TypeId) (key : MethodKey) :
    (p.withFiles files).implementations ((p.withFiles files).collect settings) interface key =
      p.implementations (p.collect settings) interface key := by
  have back : p.files.Perm (p.withFiles files).files := perm.symm
  obtain ⟨φ, hφ⟩ := renumbers perm settings
  obtain ⟨ψ, hψ⟩ := renumbers back settings
  unfold implementations
  rw [(decls_perm perm).countP_eq]
  refine List.countP_congr ?_
  intro decl _
  simp only [decide_eq_true_eq]
  constructor
  · intro h
    obtain ⟨func, v, hdecl, himpl⟩ := h
    exact ⟨func, ψ v, hdecl, himpl.renumber hψ p.files⟩
  · intro h
    obtain ⟨func, v, hdecl, himpl⟩ := h
    exact ⟨func, φ v, hdecl, himpl.renumber hφ files⟩

theorem unified_perm (wf : p.WellFormed) (settings : Settings) :
    ((p.withFiles files).pool ((p.withFiles files).collect settings)).2 =
      (p.pool (p.collect settings)).2 := by
  have wf' := wellFormed_withFiles wf fun file hfile => perm.mem_iff.mp hfile
  obtain ⟨_, _, hpooled⟩ := p.pool_pooled (p.collect_leadsTo settings)
  obtain ⟨_, _, hpooled'⟩ := (p.withFiles files).pool_pooled (collect_leadsTo _ settings)
  refine hpooled'.joined.trans (Eq.trans ?_ hpooled.joined.symm)
  rw [packageInterfaces_withFiles]
  congr 1
  refine List.map_congr_left ?_
  intro interface _
  rw [siblingFollowers_eq wf', siblingFollowers_eq wf, interfaceMethods_withFiles]
  simp only [implementations_perm perm]

theorem poolM_returns_perm (wf : p.WellFormed) (ledger ledger' : Ledger) :
    Returns ((p.withFiles files).poolM ledger') ↔ Returns (p.poolM ledger) := by
  have wf' := wellFormed_withFiles wf fun file hfile => perm.mem_iff.mp hfile
  have hmethods : (p.withFiles files).methodDecls.Perm p.methodDecls := by
    have hdecl : (p.withFiles files).methodDecl? = p.methodDecl? := by
      funext decl
      cases decl <;> simp [methodDecl?_func, methodDecl?_gen, receiverBase?_withFiles]
    rw [methodDecls, methodDecls, hdecl]
    exact (decls_perm perm).filterMap _
  rw [poolM_returns wf', poolM_returns wf, packageInterfaces_withFiles,
    pointerImplementsM_withFiles]
  simp only [hmethods.mem_iff]

theorem exprs_perm : (p.withFiles files).exprs.Perm p.exprs := by
  simp only [exprs, files_withFiles]
  exact perm.flatMap_right _

omit perm in
theorem marksOf_withFiles (p : Program) (files : List SourceFile) (settings : Settings) :
    (p.withFiles files).marksOf settings = p.marksOf settings := by
  funext e
  simp [marksOf, marks_withFiles]

theorem callsNoKeyFunction_perm (keyless : p.CallsNoKeyFunction settings) :
    (p.withFiles files).CallsNoKeyFunction settings := by
  intro callee args spread type hcontains f name hf hname
  rw [qualifiedName?_withFiles] at hname
  exact keyless callee args spread type ((contains_perm perm).mp hcontains) f name hf hname

/-- Marking breaks off in both orders or in none. -/
theorem unbroken_perm (settings : Settings) (ledger ledger' : Ledger) :
    ((p.withFiles files).markUses settings ledger').2 = none ↔
      (p.markUses settings ledger).2 = none := by
  have hbreach : ∀ e, (p.withFiles files).BreachAt e ↔ p.BreachAt e := by
    intro e
    have hmarks : (∃ breach, (p.withFiles files).marks settings e = .error breach) ↔
        (p.withFiles files).BreachAt e := marks_error
    rw [← hmarks, marks_withFiles, marks_error]
  have hbroken : (∃ breach, ((p.withFiles files).markUses settings ledger').2 = some breach) ↔
      ∃ breach, (p.markUses settings ledger).2 = some breach := by
    simp only [markUses_def, markExprs_breach, (exprs_perm perm).mem_iff, hbreach]
  rw [← Option.ne_none_iff_exists', ← Option.ne_none_iff_exists'] at hbroken
  exact not_iff_not.mp hbroken

theorem place_perm (distinct : (p.files.map (·.id)).Nodup) :
    (p.withFiles files).place = p.place := by
  have hdistinct : (files.map (·.id)).Nodup := (perm.map _).nodup_iff.mpr distinct
  have hname : (p.withFiles files).fileName = p.fileName := by
    funext pos
    unfold fileName
    rw [files_withFiles, find?_perm perm hdistinct]
  funext object
  simp [place, hname]

section Run

variable (wf : p.WellFormed) (keyless : p.CallsNoKeyFunction settings)
  (unbroken : (p.markUses settings (p.pool (p.collect settings)).1).2 = none)
include wf keyless unbroken

/-- In the end the ledgers say the same of all objects. -/
theorem markedLedger_perm :
    ((p.withFiles files).markedLedger settings).Agree (p.markedLedger settings) := by
  have keyless' := callsNoKeyFunction_perm perm keyless
  have unbroken' := (unbroken_perm perm settings _
    ((p.withFiles files).pool ((p.withFiles files).collect settings)).1).mpr unbroken
  obtain ⟨history, unused, hleads⟩ := p.collected_leadsTo settings
  obtain ⟨history', unused', hleads'⟩ := (p.withFiles files).collected_leadsTo settings
  have hused : ∀ e object use, p.Contains (.expr e) →
      ((p.withFiles files).UsedAt settings e object use ↔ p.UsedAt settings e object use) := by
    intro e object use he
    have hok := (markExprs_marks unbroken).1 e (mem_exprs.mpr he)
    have hok' := hok
    rw [← marks_withFiles p files] at hok'
    rw [← mark_mem_marks hok, ← mark_mem_marks hok']
  unfold markedLedger
  constructor
  · intro object other
    rw [marked_sharesRecord hleads' keyless' unbroken',
      marked_sharesRecord hleads keyless unbroken, pooled_sharesRecord_iff perm wf]
  · intro object
    refine (marked_ascending hleads' unbroken' object).ext
      (marked_ascending hleads unbroken object) ?_
    intro use
    rw [marked_holds hleads' keyless' unbroken' unused',
      marked_holds hleads keyless unbroken unused]
    refine exists_congr fun e => exists_congr fun other => ?_
    rw [contains_perm perm, pooled_sharesRecord_iff perm wf]
    refine and_congr_right fun he => ?_
    rw [hused e other use he]

theorem uses_perm :
    ((p.withFiles files).markUses settings
        ((p.withFiles files).pool ((p.withFiles files).collect settings)).1).1.uses =
      (p.markUses settings (p.pool (p.collect settings)).1).1.uses := by
  have keyless' := callsNoKeyFunction_perm perm keyless
  have unbroken' := (unbroken_perm perm settings _
    ((p.withFiles files).pool ((p.withFiles files).collect settings)).1).mpr unbroken
  obtain ⟨history, _, hleads⟩ := p.collected_leadsTo settings
  obtain ⟨history', _, hleads'⟩ := (p.withFiles files).collected_leadsTo settings
  have htracked : ∀ object,
      (((p.withFiles files).pool ((p.withFiles files).collect settings)).1.lookup object).isSome =
        ((p.pool (p.collect settings)).1.lookup object).isSome := by
    intro object
    rw [Bool.eq_iff_iff, Option.isSome_iff_exists, Option.isSome_iff_exists,
      ← Ledger.sharesRecord_self, ← Ledger.sharesRecord_self, pooled_sharesRecord_iff perm wf]
  have hcounted : Marking.counted
      ((p.withFiles files).pool ((p.withFiles files).collect settings)).1 =
        Marking.counted (p.pool (p.collect settings)).1 := by
    funext mark
    cases mark <;> simp [Marking.counted, htracked]
  rw [marked_uses hleads' keyless' unbroken', marked_uses hleads keyless unbroken, hcounted,
    marksOf_withFiles]
  exact ((exprs_perm perm).flatMap_right _).countP_eq _

theorem report_perm (distinct : (p.files.map (·.id)).Nodup) (includeTests : Bool) :
    ((p.withFiles files).report settings includeTests
      ((p.withFiles files).markedLedger settings)).Perm
      (p.report settings includeTests (p.markedLedger settings)) := by
  obtain ⟨past, hmarked⟩ := markedLedger_leadsTo unbroken
  obtain ⟨past', hmarked'⟩ := markedLedger_leadsTo ((unbroken_perm perm settings _
    ((p.withFiles files).pool ((p.withFiles files).collect settings)).1).mpr unbroken)
  have hagree := markedLedger_perm perm wf keyless unbroken
  have hplace := place_perm perm distinct
  have hscope : (p.withFiles files).objectInScope settings includeTests =
      p.objectInScope settings includeTests := by
    funext object
    simp [objectInScope, hplace, object_withFiles]
  have hfinding : (p.withFiles files).finding? = p.finding? := by
    funext object usage
    simp [finding?, finding, hplace, request?_withFiles, problems_withFiles, object_withFiles,
      nameList_withFiles]
  rw [report_eq_findings _ _ _ hmarked', report_eq_findings _ _ _ hmarked, hscope, hfinding]
  simp only [hagree.records]
  have hfound := ((hagree.tracked hmarked' hmarked).filter
    (p.objectInScope settings includeTests)).filterMap
      fun id => p.finding? id ((p.markedLedger settings).recordOf id)
  exact (List.mergeSort_perm _ _).trans (hfound.trans (List.mergeSort_perm _ _).symm)

theorem reportM_returns_perm (distinct : (p.files.map (·.id)).Nodup) (includeTests : Bool) :
    Returns ((p.withFiles files).reportM settings includeTests
      ((p.withFiles files).markedLedger settings)) ↔
      Returns (p.reportM settings includeTests (p.markedLedger settings)) := by
  have wf' := wellFormed_withFiles wf fun file hfile => perm.mem_iff.mp hfile
  have unbroken' := (unbroken_perm perm settings _
    ((p.withFiles files).pool ((p.withFiles files).collect settings)).1).mpr unbroken
  obtain ⟨past, hmarked⟩ := markedLedger_leadsTo unbroken
  obtain ⟨past', hmarked'⟩ := markedLedger_leadsTo unbroken'
  have hagree := markedLedger_perm perm wf keyless unbroken
  have hplace := place_perm perm distinct
  have hscope : (p.withFiles files).objectInScope settings includeTests =
      p.objectInScope settings includeTests := by
    funext object
    simp [objectInScope, hplace, object_withFiles]
  rw [reportM_returns_objects wf' settings includeTests hmarked' (marked_resolves wf' _ unbroken'),
    reportM_returns_objects wf settings includeTests hmarked (marked_resolves wf _ unbroken),
    hscope, request?_withFiles, problemsM_withFiles]
  simp only [(hagree.tracked hmarked' hmarked).mem_iff, hagree.records]

/-- An analysis comes out the same up to the order of its findings. -/
theorem outcome_perm (distinct : (p.files.map (·.id)).Nodup) (includeTests : Bool) :
    ((p.withFiles files).outcome settings includeTests).diagnostics.Perm
        (p.outcome settings includeTests).diagnostics ∧
      ((p.withFiles files).outcome settings includeTests).stats =
        (p.outcome settings includeTests).stats := by
  have unbroken' := (unbroken_perm perm settings _
    ((p.withFiles files).pool ((p.withFiles files).collect settings)).1).mpr unbroken
  obtain ⟨_, hmarked⟩ := markedLedger_leadsTo unbroken
  obtain ⟨_, hmarked'⟩ := markedLedger_leadsTo unbroken'
  have hagree := markedLedger_perm perm wf keyless unbroken
  have hreport := report_perm perm wf keyless unbroken distinct includeTests
  refine ⟨hreport, ?_⟩
  simp only [outcome_stats, outcome_diagnostics, hagree.size_eq hmarked' hmarked,
    hagree.recordCount_eq hmarked' hmarked, unified_perm perm wf,
    uses_perm perm wf keyless unbroken, hreport.countP_eq]

end Run

end Reordered

/-- Where no call drops a variable and files have ids of their own, the order of the files decides
neither whether an analysis succeeds nor what it finds and counts. -/
theorem file_order_does_not_matter (p : Program) (valid : p.defect? = none) (settings : Settings)
    (includeTests : Bool) (distinct : (p.files.map (·.id)).Nodup)
    (keyless : p.CallsNoKeyFunction settings) (files : List SourceFile)
    (perm : files.Perm p.files) :
    ((∃ analysis,
        (p.withFiles files).analyzeM (m := Strict) settings includeTests = .ok (.ok analysis)) ↔
      ∃ analysis, p.analyzeM (m := Strict) settings includeTests = .ok (.ok analysis)) ∧
    ∀ analysis reordered, p.analyzeM (m := Strict) settings includeTests = .ok (.ok analysis) →
      (p.withFiles files).analyzeM (m := Strict) settings includeTests = .ok (.ok reordered) →
        reordered.diagnostics.Perm analysis.diagnostics ∧ reordered.stats = analysis.stats := by
  have wf := WellFormed.of_defect? valid
  have valid' := (wellFormed_withFiles wf fun file hfile => perm.mem_iff.mp hfile).defect?
  have hbroken := unbroken_perm perm settings (p.pool (p.collect settings)).1
    ((p.withFiles files).pool ((p.withFiles files).collect settings)).1
  constructor
  · simp only [analyzeM_eq_ok, analyze_eq_ok, valid, valid', hbroken, true_and, and_assoc,
      exists_and_left, exists_and_right, exists_eq']
    refine and_congr_right fun unbroken => ?_
    rw [poolM_returns_perm perm wf (p.collect settings),
      reportM_returns_perm perm wf keyless unbroken distinct]
  · intro analysis reordered run run'
    obtain ⟨_, unbroken, rfl⟩ := analyze_eq_ok.mp (analyzeM_eq_ok.mp run).1
    obtain ⟨_, _, rfl⟩ := analyze_eq_ok.mp (analyzeM_eq_ok.mp run').1
    exact outcome_perm perm wf keyless unbroken distinct includeTests

/-- Two types serve in files of their own. One passes its context to a function that logs, the other
calls a method of it. -/
def serversInFiles : Program where
  package := ⟨0⟩
  packages := #[⟨"app", "app"⟩, ⟨"context", "context"⟩]
  types := #[
    .signature ⟨[], [], false⟩,
    .interface ⟨[⟨"Done", none, ⟨0⟩⟩], []⟩,
    .named ⟨"Context", some ⟨1⟩, ⟨1⟩, []⟩,
    .interface ⟨[⟨"Log", none, ⟨0⟩⟩], []⟩,
    .named ⟨"Logger", some ⟨0⟩, ⟨3⟩, []⟩,
    .interface ⟨[⟨"Count", none, ⟨0⟩⟩], []⟩,
    .named ⟨"Meter", some ⟨0⟩, ⟨5⟩, []⟩,
    .interface ⟨[], [⟨2⟩, ⟨4⟩, ⟨6⟩]⟩,
    .signature ⟨[⟨⟨7⟩, none⟩], [], false⟩,
    .interface ⟨[⟨"Serve", none, ⟨8⟩⟩], []⟩,
    .named ⟨"Server", some ⟨0⟩, ⟨9⟩, []⟩,
    .struct [],
    .named ⟨"Home", some ⟨0⟩, ⟨11⟩, [⟨⟨1⟩, false⟩]⟩,
    .named ⟨"Search", some ⟨0⟩, ⟨11⟩, [⟨⟨2⟩, false⟩]⟩,
    .signature ⟨[⟨⟨4⟩, none⟩], [], false⟩]
  objects := #[
    ⟨"Server", .typeName, some ⟨0⟩, some ⟨10⟩, none⟩,
    ⟨"Serve", .method ⟨12⟩, some ⟨0⟩, some ⟨8⟩, none⟩,
    ⟨"Serve", .method ⟨13⟩, some ⟨0⟩, some ⟨8⟩, none⟩,
    ⟨"ctx", .variable, some ⟨0⟩, some ⟨7⟩, some ⟨⟨0⟩, 3, 1⟩⟩,
    ⟨"ctx", .variable, some ⟨0⟩, some ⟨7⟩, some ⟨⟨1⟩, 3, 1⟩⟩,
    ⟨"write", .func, some ⟨0⟩, some ⟨14⟩, none⟩]
  files :=
    let name text binding : Ident := ⟨text, ⟨⟨0⟩, 0, 0⟩, binding⟩
    let use text object type : Expr := ⟨.ident (name text (some (.uses ⟨object⟩))), some ⟨type⟩⟩
    let method text receiver object ctx body : Decl :=
      .func ⟨some [⟨[], ⟨.ident (name text none), some ⟨receiver⟩⟩⟩],
        name "Serve" (some (.defines ⟨object⟩)),
        ⟨[⟨[name "ctx" (some (.defines ⟨ctx⟩))], ⟨.interfaceType [], some ⟨7⟩⟩⟩], []⟩,
        some ⟨[.expr ⟨body, none⟩]⟩⟩
    let writes : ExprForm := .call (use "write" 5 14) [use "ctx" 3 7] false
    let counts : ExprForm :=
      .call ⟨.selector (use "ctx" 4 7) (name "Count" none), some ⟨0⟩⟩ [] false
    [⟨⟨0⟩, "home.go", [method "Home" 12 1 3 writes]⟩,
      ⟨⟨1⟩, "search.go", [method "Search" 13 2 4 counts]⟩]

/-- The contexts share a record in both orders, and only the base context is found unused. -/
theorem serversInFiles_reversed : ∃ analysis reordered,
    serversInFiles.analyzeM (m := Strict) .default true = .ok (.ok analysis) ∧
      (serversInFiles.withFiles serversInFiles.files.reverse).analyzeM (m := Strict) .default true =
        .ok (.ok reordered) ∧
      analysis.stats.tracked = 2 ∧ analysis.stats.sharedRecords = 1 ∧
      analysis.stats.unified = 1 ∧ analysis.stats.uses = 2 ∧
      analysis.diagnostics.length = 2 ∧ reordered.stats = analysis.stats ∧
      reordered.diagnostics.Perm analysis.diagnostics := by
  have valid : serversInFiles.defect? = none := by decide +kernel
  have keyless : serversInFiles.CallsNoKeyFunction .default := by
    have checked : serversInFiles.exprs.all fun e => match e.form with
        | .call callee _ _ => (callee.calleeObject?.bind serversInFiles.qualifiedName?).all
            (· ∉ Settings.default.keyParamFunctions)
        | _ => true := by
      decide +kernel
    intro callee args spread type hcontains f name hf hname
    have hcall := List.all_eq_true.mp checked _ (mem_exprs.mpr hcontains)
    simpa [Expr.calleeObject?_eq_some.mpr hf, hname] using hcall
  have run : serversInFiles.analyzeM (m := Strict) .default true =
      .ok (.ok (serversInFiles.outcome .default true)) := by
    have unbroken : (serversInFiles.markUses .default
        (serversInFiles.pool (serversInFiles.collect .default)).1).2 = none := by
      decide +kernel
    refine analyzeM_eq_ok.mpr ⟨analyze_eq_ok.mpr ⟨valid, unbroken, rfl⟩, by decide +kernel, ?_⟩
    rw [reportM_eq .default true (marked_resolves (.of_defect? valid) .default unbroken)]
    exact map_returns.mpr (by decide +kernel)
  obtain ⟨hsucceeds, hsame⟩ := file_order_does_not_matter serversInFiles valid .default true
    (by decide) keyless serversInFiles.files.reverse (List.reverse_perm _)
  obtain ⟨reordered, run'⟩ := hsucceeds.mpr ⟨_, run⟩
  obtain ⟨hperm, hstats⟩ := hsame _ _ run run'
  refine ⟨_, reordered, run, run', ?_, ?_, ?_, ?_, ?_, hstats, hperm⟩
  · change (serversInFiles.markedLedger .default).size = 2
    decide +kernel
  · change (serversInFiles.markedLedger .default).recordCount = 1
    decide +kernel
  · change (serversInFiles.pool (serversInFiles.collect .default)).2 = 1
    decide +kernel
  · decide +kernel
  · have hcount : (serversInFiles.findings (serversInFiles.markedLedger .default)).length = 2 := by
      decide +kernel
    simp [report_eq, reportedFindings, hcount]

end Program

end LeastContext

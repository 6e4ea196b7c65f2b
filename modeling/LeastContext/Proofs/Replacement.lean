import LeastContext.Analysis.Run

namespace LeastContext.Program

/-- The same tables with other files. What a program says about its types and objects rests on its
tables alone. -/
def withFiles (p : Program) (files : List SourceFile) : Program :=
  { p with files }

variable (p : Program) (files : List SourceFile)

@[simp] theorem files_withFiles : (p.withFiles files).files = files := rfl

@[simp] theorem package_withFiles : (p.withFiles files).package = p.package := rfl

@[simp] theorem types_withFiles : (p.withFiles files).types = p.types := rfl

@[simp] theorem objects_withFiles : (p.withFiles files).objects = p.objects := rfl

section Queries

variable {m : Type → Type} [Evaluation m]

@[simp] theorem formM_withFiles : (p.withFiles files).formM (m := m) = p.formM := rfl

@[simp] theorem objectM_withFiles : (p.withFiles files).objectM (m := m) = p.objectM := rfl

@[simp] theorem packageOfM_withFiles : (p.withFiles files).packageOfM (m := m) = p.packageOfM := rfl

@[simp] theorem namedM_withFiles : (p.withFiles files).namedM (m := m) = p.namedM := rfl

@[simp] theorem isTypeM_withFiles : (p.withFiles files).isTypeM (m := m) = p.isTypeM := rfl

-- each recursion over types is looked into once; what is made of them follows by rewriting

@[simp] theorem underlyingM_withFiles :
    (p.withFiles files).underlyingM (m := m) = p.underlyingM := by
  have within : (p.withFiles files).underlyingWithinM (m := m) = p.underlyingWithinM := by
    funext steps
    induction steps with
    | zero => rfl
    | succ steps ih =>
      funext id
      simp only [underlyingWithinM, formM_withFiles, ih]
  funext id
  simp only [underlyingM, within, types_withFiles]

@[simp] theorem interfaceM_withFiles :
    (p.withFiles files).interfaceM (m := m) = p.interfaceM := by
  funext id
  simp [interfaceM]

@[simp] theorem isInterfaceM_withFiles :
    (p.withFiles files).isInterfaceM (m := m) = p.isInterfaceM := by
  funext id
  simp [isInterfaceM]

@[simp] theorem embedsM_withFiles : (p.withFiles files).embedsM (m := m) = p.embedsM := by
  funext id
  simp [embedsM]

@[simp] theorem unwrapPointersM_withFiles :
    (p.withFiles files).unwrapPointersM (m := m) = p.unwrapPointersM := by
  have within : (p.withFiles files).unwrapPointersWithinM (m := m) = p.unwrapPointersWithinM := by
    funext steps
    induction steps with
    | zero => rfl
    | succ steps ih =>
      funext id
      simp only [unwrapPointersWithinM, formM_withFiles, ih]
  funext id
  simp only [unwrapPointersM, within, types_withFiles]

@[simp] theorem receiverBaseM_withFiles :
    (p.withFiles files).receiverBaseM (m := m) = p.receiverBaseM := by
  funext decl
  simp [receiverBaseM]

@[simp] theorem chooseM_withFiles : (p.withFiles files).chooseM (m := m) = p.chooseM := by
  have within : (p.withFiles files).embedWalkWithinM (m := m) = p.embedWalkWithinM := by
    funext stop depth
    induction depth with
    | zero => rfl
    | succ depth ih =>
      funext id
      simp only [embedWalkWithinM, embedsM_withFiles, ih]
  funext stop test id
  simp only [chooseM, embedWalkM, within, types_withFiles]

@[simp] theorem isContextM_withFiles :
    (p.withFiles files).isContextM (m := m) = p.isContextM := by
  have within : (p.withFiles files).isContextWithinM (m := m) = p.isContextWithinM := by
    funext path name depth
    induction depth with
    | zero => rfl
    | succ depth ih =>
      funext id
      simp only [isContextWithinM, isTypeM_withFiles, embedsM_withFiles, ih]
  funext path name id
  simp only [isContextM, within, types_withFiles]

@[simp] theorem expandM_withFiles : (p.withFiles files).expandM (m := m) = p.expandM := by
  have nameable : (p.withFiles files).isNameableM (m := m) = p.isNameableM := rfl
  have within : (p.withFiles files).expandWithinM (m := m) = p.expandWithinM := by
    funext home depth
    induction depth with
    | zero => rfl
    | succ depth ih =>
      funext id
      simp only [expandWithinM, interfaceM_withFiles, nameable, ih]
  funext home id
  simp only [expandM, within, types_withFiles]

@[simp] theorem leafGroupsM_withFiles :
    (p.withFiles files).leafGroupsM (m := m) = p.leafGroupsM := by
  have declaring : (p.withFiles files).declaresMethodsM (m := m) = p.declaresMethodsM := by
    funext id
    simp [declaresMethodsM]
  funext id
  simp [leafGroupsM, declaring]

@[simp] theorem explicitCompositionM_withFiles :
    (p.withFiles files).explicitCompositionM (m := m) = p.explicitCompositionM := by
  funext home id
  have foreign : (p.withFiles files).isForeignM (m := m) home = p.isForeignM home := rfl
  have requestable : (p.withFiles files).isRequestableM (m := m) home = p.isRequestableM home := by
    funext id
    simp [isRequestableM]
  simp [explicitCompositionM, foreign, requestable]

@[simp] theorem explicitlyContainingM_withFiles :
    (p.withFiles files).explicitlyContainingM (m := m) = p.explicitlyContainingM := by
  funext method id
  have declaring : (p.withFiles files).declaresM (m := m) method = p.declaresM method := by
    funext id
    simp [declaresM]
  simp [explicitlyContainingM, declaring]

@[simp] theorem interfaceMethodsM_withFiles :
    (p.withFiles files).interfaceMethodsM (m := m) = p.interfaceMethodsM := by
  have within : (p.withFiles files).flattenWithinM (m := m) = p.flattenWithinM := by
    funext depth
    induction depth with
    | zero => rfl
    | succ depth ih =>
      funext state id
      simp only [flattenWithinM, interfaceM_withFiles, ih]
  funext id
  simp only [interfaceMethodsM, within, types_withFiles]

@[simp] theorem promotedMethodsM_withFiles :
    (p.withFiles files).promotedMethodsM (m := m) = p.promotedMethodsM := by
  have scanned : (p.withFiles files).scanM (m := m) = p.scanM := by
    funext level reached
    have declared : (p.withFiles files).declaredMethodsM (m := m) = p.declaredMethodsM := rfl
    have embedded : (p.withFiles files).embeddedFieldM (m := m) = p.embeddedFieldM := rfl
    simp [scanM, ownMethodsM, embeddedFieldsM, declared, embedded]
  have within : (p.withFiles files).promoteWithinM (m := m) = p.promoteWithinM := by
    funext depth
    induction depth with
    | zero =>
      funext seen hidden level
      cases level <;> rfl
    | succ depth ih =>
      funext seen hidden level
      cases level with
      | nil => rfl
      | cons first level => simp only [promoteWithinM, scanned, ih]
  funext id addressable
  simp only [promotedMethodsM, within, types_withFiles]

@[simp] theorem identicalM_withFiles :
    (p.withFiles files).identicalM (m := m) = p.identicalM := by
  have within : (p.withFiles files).identicalWithinM (m := m) = p.identicalWithinM := by
    funext depth
    induction depth with
    | zero => rfl
    | succ depth ih =>
      funext a b
      simp only [identicalWithinM, formM_withFiles, interfaceMethodsM_withFiles, ih]
  funext a b
  simp only [identicalM, within, types_withFiles]

@[simp] theorem satisfiesM_withFiles :
    (p.withFiles files).satisfiesM (m := m) = p.satisfiesM := by
  funext methods interface
  simp [satisfiesM]

@[simp] theorem implementsM_withFiles :
    (p.withFiles files).implementsM (m := m) = p.implementsM := by
  funext id interface
  simp [implementsM, methodSetM]

@[simp] theorem pointerImplementsM_withFiles :
    (p.withFiles files).pointerImplementsM (m := m) = p.pointerImplementsM := by
  funext named interface
  simp [pointerImplementsM]

@[simp] theorem renderM_withFiles : (p.withFiles files).renderM (m := m) = p.renderM := by
  have within : (p.withFiles files).renderWithinM (m := m) = p.renderWithinM := by
    funext q depth
    induction depth with
    | zero => rfl
    | succ depth ih =>
      funext id
      simp only [renderWithinM, ih]
      rfl
  funext q id
  simp only [renderM, within, types_withFiles]

@[simp] theorem qualifiedNameM_withFiles :
    (p.withFiles files).qualifiedNameM (m := m) = p.qualifiedNameM := by
  funext id
  simp [qualifiedNameM]

@[simp] theorem marksM_withFiles : (p.withFiles files).marksM (m := m) = p.marksM := by
  have signature : (p.withFiles files).calleeSignatureM (m := m) = p.calleeSignatureM := by
    funext callee
    simp only [calleeSignatureM, underlyingM_withFiles, renderM_withFiles]
    rfl
  have arguments : (p.withFiles files).argumentMarksM (m := m) = p.argumentMarksM := rfl
  have first : (p.withFiles files).firstParamM (m := m) = p.firstParamM := rfl
  have wrapped : (p.withFiles files).wrappedParamM (m := m) = p.wrappedParamM := by
    funext names callee args
    simp only [wrappedParamM, qualifiedNameM_withFiles, first]
  funext settings e
  simp only [marksM, callMarksM, literalMarksM, signature, arguments, wrapped, formM_withFiles,
    underlyingM_withFiles]

@[simp] theorem isTrackableM_withFiles :
    (p.withFiles files).isTrackableM (m := m) = p.isTrackableM := by
  have capable : (p.withFiles files).isCapableM (m := m) = p.isCapableM := by
    funext settings id
    simp [isCapableM, isBaseM]
  funext settings id
  simp [isTrackableM, capable]

@[simp] theorem requestM_withFiles : (p.withFiles files).requestM (m := m) = p.requestM := by
  funext id
  simp [requestM]

@[simp] theorem problemsM_withFiles : (p.withFiles files).problemsM (m := m) = p.problemsM := by
  have inline : (p.withFiles files).isInlineWithMethodsM (m := m) = p.isInlineWithMethodsM := rfl
  have requested : (p.withFiles files).isRequestedM (m := m) = p.isRequestedM := by
    have within : (p.withFiles files).isRequestedWithinM (m := m) = p.isRequestedWithinM := by
      funext request depth
      induction depth with
      | zero => rfl
      | succ depth ih =>
        funext id
        simp only [isRequestedWithinM, isAssertedM, isInterfaceM_withFiles, implementsM_withFiles,
          inline, namedPartsM, namedM_withFiles, explicitCompositionM_withFiles, ih]
    funext request id
    simp only [isRequestedM, within, types_withFiles]
  have parts : (p.withFiles files).unrequestedPartsM (m := m) = p.unrequestedPartsM := by
    funext request id
    simp [unrequestedPartsM, requested]
  have methods : (p.withFiles files).unrequestedMethodM (m := m) = p.unrequestedMethodM := by
    funext request method
    simp [unrequestedMethodM, isMethodRequestedM, requested]
  funext request usage
  simp [problemsM, unusedGroupsM, unrequestedUsesM, isUsedM, parts, methods]

@[simp] theorem nameListM_withFiles : (p.withFiles files).nameListM (m := m) = p.nameListM := by
  have short : (p.withFiles files).shortNameM (m := m) = p.shortNameM := by
    funext home nameable
    have method : (p.withFiles files).renderMethodM (m := m) = p.renderMethodM := rfl
    cases nameable <;> simp [shortNameM, renderInterfaceM, renderBodyM, method]
  funext home ids
  simp [nameListM, short]

@[simp] theorem packageInterfacesM_withFiles :
    (p.withFiles files).packageInterfacesM (m := m) = p.packageInterfacesM := by
  have named : (p.withFiles files).namedInterfaceM (m := m) = p.namedInterfaceM := by
    funext object
    simp [namedInterfaceM]
  simp [packageInterfacesM, named]

end Queries

-- a plain query is a run, so it follows its query

theorem object_withFiles : (p.withFiles files).object = p.object := rfl

theorem packageOf_withFiles : (p.withFiles files).packageOf = p.packageOf := rfl

theorem underlying_withFiles : (p.withFiles files).underlying = p.underlying := by
  funext id
  simp [underlying]

theorem embeds_withFiles : (p.withFiles files).embeds = p.embeds := by
  funext id
  simp [embeds]

theorem isInterface_withFiles : (p.withFiles files).isInterface = p.isInterface := by
  funext id
  simp [isInterface]

theorem interfaceMethods_withFiles :
    (p.withFiles files).interfaceMethods = p.interfaceMethods := by
  funext id
  simp [interfaceMethods]

theorem pointerImplements_withFiles :
    (p.withFiles files).pointerImplements = p.pointerImplements := by
  funext named interface
  simp [pointerImplements]

theorem receiverBase?_withFiles : (p.withFiles files).receiverBase? = p.receiverBase? := by
  funext decl
  simp [receiverBase?]

theorem packageInterfaces_withFiles :
    (p.withFiles files).packageInterfaces = p.packageInterfaces := by
  simp [packageInterfaces]

theorem isTrackable_withFiles : (p.withFiles files).isTrackable = p.isTrackable := by
  funext settings id
  simp [isTrackable]

theorem qualifiedName?_withFiles : (p.withFiles files).qualifiedName? = p.qualifiedName? := by
  funext id
  simp [qualifiedName?]

theorem marks_withFiles : (p.withFiles files).marks = p.marks := by
  funext settings e
  simp [marks]

theorem request?_withFiles : (p.withFiles files).request? = p.request? := by
  funext id
  simp [request?]

theorem problems_withFiles : (p.withFiles files).problems = p.problems := by
  funext request usage
  simp [problems]

theorem nameList_withFiles : (p.withFiles files).nameList = p.nameList := by
  funext home ids
  simp [nameList]

end LeastContext.Program

import LeastContext.Method.Key

namespace LeastContext

/-- Adds methods in order, leaving out those whose key is there already. -/
def Method.addNew (methods : List Method) : List Method → List Method
  | [] => methods
  | method :: more =>
    if methods.any (·.key = method.key) then addNew methods more
    else addNew (methods ++ [method]) more

/-- The state of flattening an interface: the types visited and the methods found. -/
structure Flattening where
  visited : List TypeId
  methods : List Method

/-- A method met on one level of promotion, and how often its key was met there. -/
structure Candidate where
  method : Method
  count : Nat

def Candidate.add (candidates : List Candidate) (method : Method) : List Candidate :=
  match candidates with
  | [] => [⟨method, 1⟩]
  | candidate :: more =>
    if candidate.method.key = method.key then
      { candidate with count := candidate.count + 1 } :: more
    else candidate :: add more method

/-- A type reached by promotion, and whether methods with pointer receivers are callable on it. -/
structure Reached where
  type : TypeId
  addressable : Bool

/-- The scan of one level: types seen so far, methods met on it, and the level below. -/
structure LevelScan where
  seen : List TypeId
  found : List Candidate
  next : List Reached

open Evaluation

namespace Program

section Queries

variable {m : Type → Type} [Evaluation m] (p : Program)

def flattenWithinM : Nat → Flattening → TypeId → m Flattening
  | 0, state, _ => fault .endless state
  | depth + 1, state, id => do
    if id ∈ state.visited then return state
    else
      match ← p.interfaceM id with
      | none => return { state with visited := id :: state.visited }
      | some body =>
        body.embeds.foldlM (flattenWithinM depth)
          { visited := id :: state.visited
            methods := Method.addNew state.methods
              (body.methods.map fun method => ⟨method.key, method.signature⟩) }

/-- All methods of an interface, its own before those of its embeds. -/
def interfaceMethodsM (id : TypeId) : m (List Method) := do
  return (← p.flattenWithinM (p.types.size + 1) ⟨[], []⟩ id).methods

def declaredMethodM (method : DeclaredMethod) : m (Option Method) := do
  let object ← p.objectM method.func
  return object.type.map fun signature => ⟨object.methodKey, signature⟩

/-- The methods declared on a named type, those with pointer receivers only if asked for. -/
def declaredMethodsM (id : TypeId) (pointerReceivers : Bool) : m (List Method) := do
  match ← p.formM id with
  | .named decl =>
    let callable := decl.methods.filter fun method => pointerReceivers || !method.pointerReceiver
    return (← callable.mapM p.declaredMethodM).filterMap (·)
  | _ => return []

/-- The methods a type brings to its level of promotion. -/
def ownMethodsM (reached : Reached) : m (List Method) := do
  if ← p.isInterfaceM reached.type then p.interfaceMethodsM reached.type
  else p.declaredMethodsM reached.type reached.addressable

/-- What an embedded field leads to, a pointer standing for its element. -/
def embeddedFieldM (addressable : Bool) (field : StructField) : m Reached := do
  match ← p.formM field.type with
  | .pointer elem => return ⟨elem, true⟩
  | _ => return ⟨field.type, addressable⟩

/-- The types promoted from next: those of embedded fields. -/
def embeddedFieldsM (reached : Reached) : m (List Reached) := do
  match ← p.formM (← p.underlyingM reached.type) with
  | .struct fields => (fields.filter (·.embedded)).mapM (p.embeddedFieldM reached.addressable)
  | _ => return []

def scanM (level : LevelScan) (reached : Reached) : m LevelScan := do
  if reached.type ∈ level.seen then return level
  else
    return {
      seen := reached.type :: level.seen
      found := (← p.ownMethodsM reached).foldl Candidate.add level.found
      next := level.next ++ (← p.embeddedFieldsM reached) }

/-- Promotes level by level. The hidden keys are those met on the levels above. -/
def promoteWithinM : Nat → List TypeId → List MethodKey → List Reached → m (List Method)
  | _, _, _, [] => return []
  | 0, _, _, _ :: _ => fault .endless []
  | depth + 1, seen, hidden, first :: more => do
    let result ← (first :: more).foldlM p.scanM ⟨seen, [], []⟩
    let fresh := result.found.filter fun candidate => candidate.method.key ∉ hidden
    let deeper ← promoteWithinM depth result.seen (fresh.map (·.method.key) ++ hidden) result.next
    return (fresh.filter (·.count = 1)).map (·.method) ++ deeper

/-- The methods of a type with those promoted through its embedded fields. -/
def promotedMethodsM (id : TypeId) (addressable : Bool) : m (List Method) :=
  p.promoteWithinM (p.types.size + 1) [] [] [⟨id, addressable⟩]

/-- The methods callable on a value of a type. -/
def methodSetM (id : TypeId) : m (List Method) := do
  if ← p.isInterfaceM id then p.interfaceMethodsM id
  else
    match ← p.formM id with
    | .pointer elem => p.promotedMethodsM elem true
    | .named _ | .struct _ => p.promotedMethodsM id false
    | _ => return []

end Queries

section Plain

variable (p : Program)

def flattenWithin (depth : Nat) (state : Flattening) (id : TypeId) : Flattening :=
  Id.run (p.flattenWithinM depth state id)

def interfaceMethods (id : TypeId) : List Method :=
  Id.run (p.interfaceMethodsM id)

def declaredMethods (id : TypeId) (pointerReceivers : Bool) : List Method :=
  Id.run (p.declaredMethodsM id pointerReceivers)

def ownMethods (reached : Reached) : List Method :=
  Id.run (p.ownMethodsM reached)

def embeddedFields (reached : Reached) : List Reached :=
  Id.run (p.embeddedFieldsM reached)

def scan (level : LevelScan) (reached : Reached) : LevelScan :=
  Id.run (p.scanM level reached)

def promoteWithin (depth : Nat) (seen : List TypeId) (hidden : List MethodKey)
    (level : List Reached) : List Method :=
  Id.run (p.promoteWithinM depth seen hidden level)

def promotedMethods (id : TypeId) (addressable : Bool) : List Method :=
  Id.run (p.promotedMethodsM id addressable)

def methodSet (id : TypeId) : List Method :=
  Id.run (p.methodSetM id)

theorem flattenWithin_succ (depth : Nat) (state : Flattening) (id : TypeId) :
    p.flattenWithin (depth + 1) state id =
      if id ∈ state.visited then state
      else
        match p.interface? id with
        | none => { state with visited := id :: state.visited }
        | some body =>
          body.embeds.foldl (p.flattenWithin depth)
            { visited := id :: state.visited
              methods := Method.addNew state.methods
                (body.methods.map fun method => ⟨method.key, method.signature⟩) } := by
  rw [flattenWithin, flattenWithinM]
  simp only [foldlM_plain]
  rfl

theorem interfaceMethods_def (id : TypeId) :
    p.interfaceMethods id = (p.flattenWithin (p.types.size + 1) ⟨[], []⟩ id).methods :=
  rfl

theorem declaredMethods_def (id : TypeId) (pointerReceivers : Bool) :
    p.declaredMethods id pointerReceivers =
      match p.form id with
      | .named decl =>
        (decl.methods.filter fun method => pointerReceivers || !method.pointerReceiver).filterMap
          fun method =>
            let object := p.object method.func
            object.type.map fun signature => ⟨object.methodKey, signature⟩
      | _ => [] := by
  rw [declaredMethods, declaredMethodsM]
  simp only [mapM_plain, pure_bind, List.filterMap_map]
  rfl

theorem ownMethods_def (reached : Reached) :
    p.ownMethods reached =
      if p.isInterface reached.type then p.interfaceMethods reached.type
      else p.declaredMethods reached.type reached.addressable :=
  rfl

theorem embeddedFields_def (reached : Reached) :
    p.embeddedFields reached =
      match p.form (p.underlying reached.type) with
      | .struct fields =>
        (fields.filter (·.embedded)).map fun field =>
          match p.form field.type with
          | .pointer elem => ⟨elem, true⟩
          | _ => ⟨field.type, reached.addressable⟩
      | _ => [] := by
  rw [embeddedFields, embeddedFieldsM]
  simp only [mapM_plain]
  rfl

theorem scan_def (level : LevelScan) (reached : Reached) :
    p.scan level reached =
      if reached.type ∈ level.seen then level
      else
        { seen := reached.type :: level.seen
          found := (p.ownMethods reached).foldl Candidate.add level.found
          next := level.next ++ p.embeddedFields reached } :=
  rfl

theorem promoteWithin_nil (depth : Nat) (seen : List TypeId) (hidden : List MethodKey) :
    p.promoteWithin depth seen hidden [] = [] := by
  cases depth <;> rfl

theorem promoteWithin_zero (seen : List TypeId) (hidden : List MethodKey) (level : List Reached) :
    p.promoteWithin 0 seen hidden level = [] := by
  cases level <;> rfl

theorem promoteWithin_succ (depth : Nat) (seen : List TypeId) (hidden : List MethodKey)
    (level : List Reached) :
    p.promoteWithin (depth + 1) seen hidden level =
      let result := level.foldl p.scan ⟨seen, [], []⟩
      let fresh := result.found.filter fun candidate => candidate.method.key ∉ hidden
      (fresh.filter (·.count = 1)).map (·.method) ++
        p.promoteWithin depth result.seen (fresh.map (·.method.key) ++ hidden) result.next := by
  cases level with
  | nil => simp [promoteWithin_nil]
  | cons first more =>
    rw [promoteWithin, promoteWithinM]
    simp only [foldlM_plain]
    rfl

theorem promotedMethods_def (id : TypeId) (addressable : Bool) :
    p.promotedMethods id addressable =
      p.promoteWithin (p.types.size + 1) [] [] [⟨id, addressable⟩] :=
  rfl

theorem methodSet_def (id : TypeId) :
    p.methodSet id =
      if p.isInterface id then p.interfaceMethods id
      else
        match p.form id with
        | .pointer elem => p.promotedMethods elem true
        | .named _ | .struct _ => p.promotedMethods id false
        | _ => [] :=
  rfl

end Plain

end Program

end LeastContext

import LeastContext.Proofs.Flattening

namespace LeastContext

namespace Method

variable {methods more : List Method} {method : Method}

/-- Adding methods appends those of a new key, of each key the first. -/
theorem addNew_eq : addNew methods more = methods ++
    (more.filter fun m => m.key ∉ methods.map Method.key).eraseDupsBy
      fun a b => a.key = b.key := by
  induction more generalizing methods with
  | nil => simp [addNew]
  | cons first more ih =>
    rw [addNew]
    split
    · rename_i hany
      have hknown : first.key ∈ methods.map Method.key := by simpa using hany
      rw [ih, List.filter_cons_of_neg (by simpa using hknown)]
    · rename_i hany
      have hnew : first.key ∉ methods.map Method.key := by simpa using hany
      have hrest : (more.filter fun m => m.key ∉ (methods ++ [first]).map Method.key) =
          (more.filter fun m => m.key ∉ methods.map Method.key).filter
            fun m => decide (m.key = first.key) = false := by
        rw [List.filter_filter]
        refine List.filter_congr ?_
        intro m _
        by_cases hkey : m.key = first.key <;> simp [hkey]
      rw [ih, hrest, List.filter_cons_of_pos (by simpa using hnew), List.eraseDupsBy_cons,
        List.append_assoc, List.singleton_append]

theorem addNew_nil : addNew [] more = more.eraseDupsBy fun a b => a.key = b.key := by
  rw [addNew_eq]
  simp

/-- A method that was added is the first of its key. -/
theorem first_of_mem_addNew (h : method ∈ addNew methods more) : method ∈ methods ∨
    method.key ∉ methods.map Method.key ∧ more.find? (·.key = method.key) = some method := by
  induction more generalizing methods with
  | nil => exact .inl h
  | cons first more ih =>
    rw [addNew] at h
    split at h
    · rename_i hany
      have hknown : first.key ∈ methods.map Method.key := by simpa using hany
      refine (ih h).imp_right ?_
      intro hfound
      obtain ⟨hnew, hfirst⟩ := hfound
      have hne : first.key ≠ method.key := fun he => hnew (he ▸ hknown)
      exact ⟨hnew, by rw [List.find?_cons_of_neg (by simpa using hne), hfirst]⟩
    · rename_i hany
      have hnew : first.key ∉ methods.map Method.key := by simpa using hany
      rcases ih h with h | ⟨hlater, hfirst⟩
      · rcases List.mem_append.mp h with h | h
        · exact .inl h
        · obtain rfl := List.mem_singleton.mp h
          exact .inr ⟨hnew, List.find?_cons_of_pos (by simp)⟩
      · rw [List.map_append, List.mem_append, not_or] at hlater
        have hne : first.key ≠ method.key := fun he => hlater.2 (by simp [he])
        exact .inr ⟨hlater.1, by rw [List.find?_cons_of_neg (by simpa using hne), hfirst]⟩

end Method

namespace Program

variable {p : Program} {id : TypeId} {ids : List TypeId} {walk other : List Method}

/-- The methods met on a plain walk from types on: of an interface its own methods, then those met
from its embeds on, and then those met from the other types on. -/
inductive Unrolls (p : Program) : List TypeId → List Method → Prop where
  | nil : Unrolls p [] []
  | plain {id : TypeId} {rest : List TypeId} {after : List Method} :
      p.interface? id = none → Unrolls p rest after → Unrolls p (id :: rest) after
  | interface {id : TypeId} {body : Interface} {rest : List TypeId} {below after : List Method} :
      p.interface? id = some body → Unrolls p body.embeds below → Unrolls p rest after →
        Unrolls p (id :: rest)
          (body.methods.map (fun method => ⟨method.key, method.signature⟩) ++ below ++ after)

theorem Unrolls.unique (h : p.Unrolls ids walk) (h' : p.Unrolls ids other) : walk = other := by
  induction h generalizing other with
  | nil =>
    cases h'
    rfl
  | plain hnone _ ih =>
    cases h' with
    | plain _ hrest => exact ih hrest
    | interface hsome _ _ => cases hnone.symm.trans hsome
  | interface hsome _ _ ihBelow ihAfter =>
    cases h' with
    | plain hnone _ => cases hnone.symm.trans hsome
    | interface hsame hbelow hrest =>
      cases hsome.symm.trans hsame
      rw [ihBelow hbelow, ihAfter hrest]

section WellFormed

variable (wf : p.WellFormed)
include wf

/-- From types within a depth the plain walk comes to its end. The induction is on the depth, since
the types below one of them lie within one less, and then along the list. -/
theorem unrolls_of_shallow {depth : Nat} (shallow : ∀ id ∈ ids, Digraph.Shallow p.embeds depth id) :
    p.Unrolls ids (ids.flatMap p.metMethods) := by
  induction depth generalizing ids with
  | zero =>
    cases ids with
    | nil => exact .nil
    | cons id ids => exact (shallow id List.mem_cons_self).elim
  | succ depth below =>
    induction ids with
    | nil => exact .nil
    | cons id ids ih =>
      have hafter := ih fun other ho => shallow other (List.mem_cons_of_mem _ ho)
      rw [List.flatMap_cons, metMethods_eq wf]
      cases hbody : p.interface? id with
      | none =>
        rw [writtenMethods_of_none hbody, embeds_of_none hbody]
        exact .plain hbody hafter
      | some body =>
        have hembeds : p.embeds id = body.embeds := embeds_of_body hbody
        have hbelow : p.Unrolls body.embeds (body.embeds.flatMap p.metMethods) := by
          apply below
          intro e he
          exact (shallow id List.mem_cons_self).next (hembeds ▸ he)
        rw [writtenMethods_of_body hbody, hembeds]
        exact .interface hbody hbelow hafter

theorem unrolls_metMethods (id : TypeId) : p.Unrolls [id] (p.metMethods id) := by
  have hwalk : p.Unrolls [id] ([id].flatMap p.metMethods) :=
    unrolls_of_shallow wf fun _ _ => embeds_shallow wf _
  rwa [List.flatMap_singleton] at hwalk

end WellFormed

/-- A walk is the plain one from a type on, and of each key that it meets the methods of the type
have the first. -/
structure FlattensWalk (p : Program) (id : TypeId) (walk : List Method) : Prop where
  walked : ∀ other, p.Unrolls [id] other ↔ other = walk
  methods : p.interfaceMethods id = walk.eraseDupsBy fun a b => a.key = b.key
  keys_nodup : ((p.interfaceMethods id).map Method.key).Nodup
  first : ∀ method ∈ p.interfaceMethods id, walk.find? (·.key = method.key) = some method

theorem flattening_is_plain_walk (p : Program) (valid : p.defect? = none) (id : TypeId) :
    ∃ walk, p.FlattensWalk id walk := by
  have wf := WellFormed.of_defect? valid
  have hwalk := unrolls_metMethods wf id
  have hmethods := interfaceMethods_eq wf id
  refine ⟨p.metMethods id, ?_, ?_, interfaceMethods_keys id, ?_⟩
  · intro other
    constructor
    · intro h
      exact h.unique hwalk
    · intro h
      rw [h]
      exact hwalk
  · rw [hmethods, Method.addNew_nil]
  · intro method hmethod
    rw [hmethods] at hmethod
    rcases Method.first_of_mem_addNew hmethod with h | h
    · cases h
    · exact h.2

/-- `Reader` and `Writer` embed `Closer` and both have a method `Read`, with different signatures,
and an unexported method `sync`, of different packages. A literal embeds all three. -/
def sharedCloser : Program where
  package := ⟨0⟩
  packages := #[⟨"app", "app"⟩, ⟨"lib", "lib"⟩]
  types := #[
    .signature ⟨[], [], false⟩,
    .basic "int",
    .signature ⟨[⟨⟨1⟩, none⟩], [], false⟩,
    .interface ⟨[⟨"Close", none, ⟨0⟩⟩], []⟩,
    .named ⟨"Closer", some ⟨1⟩, ⟨3⟩, []⟩,
    .interface ⟨[⟨"Read", some ⟨1⟩, ⟨0⟩⟩, ⟨"sync", some ⟨1⟩, ⟨0⟩⟩], [⟨4⟩]⟩,
    .named ⟨"Reader", some ⟨1⟩, ⟨5⟩, []⟩,
    .interface ⟨[⟨"Read", some ⟨0⟩, ⟨2⟩⟩, ⟨"sync", some ⟨0⟩, ⟨0⟩⟩], [⟨4⟩]⟩,
    .named ⟨"Writer", some ⟨0⟩, ⟨7⟩, []⟩,
    .interface ⟨[], [⟨6⟩, ⟨8⟩, ⟨4⟩]⟩]
  objects := #[]
  files := []

theorem sharedCloser_valid : sharedCloser.defect? = none := by
  decide

theorem sharedCloser_met : sharedCloser.metMethods ⟨9⟩ = [
    ⟨⟨"Read", none⟩, ⟨0⟩⟩, ⟨⟨"sync", some ⟨1⟩⟩, ⟨0⟩⟩, ⟨⟨"Close", none⟩, ⟨0⟩⟩,
    ⟨⟨"Read", none⟩, ⟨2⟩⟩, ⟨⟨"sync", some ⟨0⟩⟩, ⟨0⟩⟩, ⟨⟨"Close", none⟩, ⟨0⟩⟩,
    ⟨⟨"Close", none⟩, ⟨0⟩⟩] := by
  decide

/-- The plain walk meets `Close` three times and two methods of the key `Read`; the first remain. -/
theorem sharedCloser_flattened :
    sharedCloser.defect? = none ∧
      sharedCloser.interfaceMethods ⟨9⟩ = [
        ⟨⟨"Read", none⟩, ⟨0⟩⟩, ⟨⟨"sync", some ⟨1⟩⟩, ⟨0⟩⟩, ⟨⟨"Close", none⟩, ⟨0⟩⟩,
        ⟨⟨"sync", some ⟨0⟩⟩, ⟨0⟩⟩] ∧
      sharedCloser.FlattensWalk ⟨9⟩ [
        ⟨⟨"Read", none⟩, ⟨0⟩⟩, ⟨⟨"sync", some ⟨1⟩⟩, ⟨0⟩⟩, ⟨⟨"Close", none⟩, ⟨0⟩⟩,
        ⟨⟨"Read", none⟩, ⟨2⟩⟩, ⟨⟨"sync", some ⟨0⟩⟩, ⟨0⟩⟩, ⟨⟨"Close", none⟩, ⟨0⟩⟩,
        ⟨⟨"Close", none⟩, ⟨0⟩⟩] := by
  obtain ⟨walk, h⟩ := flattening_is_plain_walk sharedCloser sharedCloser_valid ⟨9⟩
  have hmet := (h.walked _).mp (unrolls_metMethods (.of_defect? sharedCloser_valid) ⟨9⟩)
  rw [sharedCloser_met] at hmet
  exact ⟨sharedCloser_valid, by decide, hmet ▸ h⟩

end Program

end LeastContext

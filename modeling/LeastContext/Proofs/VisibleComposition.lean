import LeastContext.Proofs.EmbedWalks
import LeastContext.Proofs.Lists

namespace LeastContext.Program

variable {p : Program} {home : Option PackageId} {id x y : TypeId} {place : List Nat}

/-- A type is met at a place in the composition of another. The place says which embed is taken at
each step, and every type that is entered is an interface without a name or one that the package
`home` declares. -/
inductive VisibleAt (p : Program) (home : Option PackageId) :
    TypeId → List Nat → TypeId → Prop where
  | here {id : TypeId} : VisibleAt p home id [] id
  | inside {id e x : TypeId} {body : Interface} {i : Nat} {place : List Nat} :
      p.interface? id = some body → (∀ decl, p.named? id = some decl → decl.package = home) →
        body.embeds[i]? = some e → VisibleAt p home e place x → VisibleAt p home id (i :: place) x

/-- An embed walk with the places at which it meets the types. -/
def placedWalkWithin (p : Program) (stop : TypeId → Bool) :
    Nat → TypeId → List (List Nat × TypeId)
  | 0, _ => []
  | depth + 1, id =>
    ([], id) ::
      if stop id then [] else placesFrom 0 ((p.embeds id).map (p.placedWalkWithin stop depth))

section Walk

variable {stop : TypeId → Bool} {depth : Nat}

theorem placedWalkWithin_types :
    (p.placedWalkWithin stop depth id).map (·.2) = p.embedWalkWithin stop depth id := by
  induction depth generalizing id with
  | zero => rfl
  | succ depth ih =>
    rw [placedWalkWithin, embedWalkWithin_succ, List.map_cons]
    split
    · rfl
    · rw [map_placesFrom, List.flatMap_map]
      exact congrArg _ (List.flatMap_congr fun e _ => ih)

/-- The places of a walk ascend: as words, they are in the order in which the walk meets them. -/
theorem placedWalkWithin_ascending : (p.placedWalkWithin stop depth id).Pairwise (·.1 < ·.1) := by
  induction depth generalizing id with
  | zero => exact .nil
  | succ depth ih =>
    rw [placedWalkWithin, List.pairwise_cons]
    split
    · exact ⟨nofun, .nil⟩
    · constructor
      · intro met hmet
        obtain ⟨i, rest, _, hplace, _, _⟩ := mem_placesFrom.mp hmet
        rw [hplace]
        exact List.nil_lt_cons ..
      · apply placesFrom_ascending
        intro list hlist
        obtain ⟨e, _, rfl⟩ := List.mem_map.mp hlist
        exact ih

theorem getElem?_embeds {i : Nat} {e : TypeId} :
    (p.embeds id)[i]? = some e ↔
      ∃ body, p.interface? id = some body ∧ body.embeds[i]? = some e := by
  cases hbody : p.interface? id <;> simp [Program.embeds_def, hbody]

/-- A walk deep enough meets what is visible, where it is visible. -/
theorem mem_placedWalkWithin (shallow : Digraph.Shallow p.embeds depth id) :
    (place, x) ∈ p.placedWalkWithin (p.isForeign home) depth id ↔ p.VisibleAt home id place x := by
  induction depth generalizing id place with
  | zero => exact shallow.elim
  | succ depth ih =>
    rw [placedWalkWithin, List.mem_cons]
    constructor
    · intro h
      rcases h with he | h
      · cases he
        exact .here
      · split at h
        · cases h
        · rename_i hforeign
          obtain ⟨i, rest, list, rfl, hlist, hmem⟩ := mem_placesFrom.mp h
          rw [List.getElem?_map, Option.map_eq_some_iff] at hlist
          obtain ⟨e, he, rfl⟩ := hlist
          obtain ⟨body, hbody, hembed⟩ := getElem?_embeds.mp he
          have hown := isForeign_eq_false.mp (Bool.eq_false_of_not_eq_true hforeign)
          have hbelow := (ih (shallow.next (List.mem_of_getElem? he))).mp hmem
          rw [Nat.zero_add]
          exact .inside hbody hown hembed hbelow
    · intro h
      cases h with
      | here => exact .inl rfl
      | @inside _ e _ body i rest hbody hown hembed hbelow =>
        have he : (p.embeds id)[i]? = some e := getElem?_embeds.mpr ⟨body, hbody, hembed⟩
        have hlocal : p.isForeign home id = false := isForeign_eq_false.mpr hown
        have hmem := (ih (shallow.next (List.mem_of_getElem? he))).mpr hbelow
        rw [hlocal, if_neg Bool.false_ne_true]
        refine .inr (mem_placesFrom.mpr ⟨i, rest, _, by rw [Nat.zero_add], ?_, hmem⟩)
        rw [List.getElem?_map, he]
        rfl

end Walk

/-- The types visible in the composition of a type that can be asked for, with their places. -/
def requestablePlaces (p : Program) (home : Option PackageId) (id : TypeId) :
    List (List Nat × TypeId) :=
  (p.placedWalkWithin (p.isForeign home) (p.types.size + 1) id).filter fun met =>
    p.isRequestable home met.2

theorem explicitComposition_eq (p : Program) (home : Option PackageId) (id : TypeId) :
    p.explicitComposition home id = ((p.requestablePlaces home id).map (·.2)).eraseDups := by
  rw [explicitComposition_def, embedWalk_def, ← placedWalkWithin_types, List.filter_map]
  rfl

section WellFormed

variable (wf : p.WellFormed)
include wf

theorem mem_requestablePlaces : (place, x) ∈ p.requestablePlaces home id ↔
    p.VisibleAt home id place x ∧ p.isRequestable home x = true := by
  rw [requestablePlaces, List.mem_filter, mem_placedWalkWithin (embeds_shallow wf id)]

theorem mem_explicitComposition_iff_visible : x ∈ p.explicitComposition home id ↔
    (∃ place, p.VisibleAt home id place x) ∧ p.isRequestable home x = true := by
  rw [explicitComposition_eq, List.mem_eraseDups, List.mem_map]
  simp only [Prod.exists, exists_eq_right, mem_requestablePlaces wf, exists_and_right]

/-- An interface that is listed before another is met before any occurrence of the other. -/
theorem explicitComposition_first : (p.explicitComposition home id).Pairwise fun x y =>
    ∃ place, p.VisibleAt home id place x ∧
      ∀ other, p.VisibleAt home id other y → place < other := by
  have hascending : (p.requestablePlaces home id).Pairwise (·.1 < ·.1) :=
    placedWalkWithin_ascending.filter _
  have hfirst := eraseDups_first hascending
  rw [← explicitComposition_eq] at hfirst
  refine hfirst.imp_of_mem ?_
  intro x y _ hy hbefore
  obtain ⟨place, hx, hbefore⟩ := hbefore
  have hrequestable := ((mem_explicitComposition_iff_visible wf).mp hy).2
  refine ⟨place, ((mem_requestablePlaces wf).mp hx).1, ?_⟩
  intro other hother
  exact hbefore other ((mem_requestablePlaces wf).mpr ⟨hother, hrequestable⟩)

/-- What is visible in a visible part is visible. -/
theorem explicitComposition_closed (hx : x ∈ p.explicitComposition home id)
    (hy : y ∈ p.explicitComposition home x) : y ∈ p.explicitComposition home id := by
  obtain ⟨hreach, _⟩ := (mem_explicitComposition wf).mp hx
  obtain ⟨hbelow, hrequestable⟩ := (mem_explicitComposition wf).mp hy
  exact (mem_explicitComposition wf).mpr ⟨hreach.trans hbelow, hrequestable⟩

end WellFormed

/-- The interfaces that a variable asks for by name are its visible composition. -/
structure AsksForVisible (p : Program) (home : Option PackageId) (id : TypeId) : Prop where
  nodup : (p.explicitComposition home id).Nodup
  members : ∀ x, x ∈ p.explicitComposition home id ↔
    (∃ place, p.VisibleAt home id place x) ∧ (∃ body, p.interface? x = some body) ∧
      ∃ decl, p.named? x = some decl ∧ (decl.package ≠ home ∨ decl.isExported = true)
  ordered : (p.explicitComposition home id).Pairwise fun x y =>
    ∃ place, p.VisibleAt home id place x ∧ ∀ other, p.VisibleAt home id other y → place < other
  closed : ∀ x ∈ p.explicitComposition home id, ∀ y ∈ p.explicitComposition home x,
    y ∈ p.explicitComposition home id

theorem explicit_composition_is_visible (p : Program) (valid : p.defect? = none)
    (home : Option PackageId) (id : TypeId) : p.AsksForVisible home id := by
  have wf := WellFormed.of_defect? valid
  refine ⟨eraseDups_nodup _, ?_, explicitComposition_first wf, ?_⟩
  · intro x
    rw [mem_explicitComposition_iff_visible wf, isRequestable_iff, isInterface_iff]
  · intro x hx y hy
    exact explicitComposition_closed wf hx hy

/-- A literal embeds `lib.Facade = interface { lib.Store }`, an unexported interface of its package
that embeds the exported `Logger` and a literal with `lib.Store` in it, then `lib.Facade` again and
an interface `error` without a package. -/
def veiledParts : Program where
  package := ⟨0⟩
  packages := #[⟨"app", "app"⟩, ⟨"lib", "lib"⟩]
  types := #[
    .signature ⟨[], [], false⟩,
    .interface ⟨[⟨"Put", none, ⟨0⟩⟩], []⟩,
    .named ⟨"Store", some ⟨1⟩, ⟨1⟩, []⟩,
    .interface ⟨[], [⟨2⟩]⟩,
    .named ⟨"Facade", some ⟨1⟩, ⟨3⟩, []⟩,
    .interface ⟨[⟨"Log", none, ⟨0⟩⟩], []⟩,
    .named ⟨"Logger", some ⟨0⟩, ⟨5⟩, []⟩,
    .interface ⟨[], [⟨6⟩, ⟨3⟩]⟩,
    .named ⟨"parts", some ⟨0⟩, ⟨7⟩, []⟩,
    .interface ⟨[⟨"Error", none, ⟨0⟩⟩], []⟩,
    .named ⟨"error", none, ⟨9⟩, []⟩,
    .interface ⟨[], [⟨4⟩, ⟨8⟩, ⟨4⟩, ⟨10⟩]⟩]
  objects := #[]
  files := []

theorem veiledParts_valid : veiledParts.defect? = none := by
  decide

/-- `lib.Store` comes after `Logger`, though `lib.Facade` embeds it: the walk does not enter an
opaque interface. -/
theorem veiledParts_visible :
    veiledParts.defect? = none ∧
      veiledParts.explicitComposition (some ⟨0⟩) ⟨11⟩ = [⟨4⟩, ⟨6⟩, ⟨2⟩, ⟨10⟩] ∧
      veiledParts.AsksForVisible (some ⟨0⟩) ⟨11⟩ :=
  ⟨veiledParts_valid, by decide,
    explicit_composition_is_visible veiledParts veiledParts_valid (some ⟨0⟩) ⟨11⟩⟩

end LeastContext.Program

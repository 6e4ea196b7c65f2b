import LeastContext.Dump.Decode

namespace LeastContext

theorem Json.depth_le_of_lookup {fields : List (String × Json)} {key : String} {json : Json}
    (h : fields.lookup key = some json) : json.depth ≤ Json.fieldsDepth fields := by
  induction fields with
  | nil => cases h
  | cons first fields ih =>
    obtain ⟨k, value⟩ := first
    rw [Json.fieldsDepth]
    rw [List.lookup_cons] at h
    split at h
    · cases h
      exact Nat.le_max_left ..
    · exact Nat.le_trans (ih h) (Nat.le_max_right ..)

namespace Dump

variable {α β : Type} {depth : Nat} {decode : Json → Option α} {encode : α → Json} {json : Json}
  {fields : List (String × Json)} {key : String}

/-- A decoder gives a value for a JSON value, unless that nests too deep. -/
def Decodes (depth : Nat) (decode : Json → Option α) (json : Json) (value : α) : Prop :=
  json.depth ≤ depth → decode json = some value

/-- A reader gives a value for the fields of a record, unless they nest too deep, and leaves them
to the next reader. -/
def Reads (depth : Nat) (read : FieldReader α) (fields : List (String × Json)) (value : α) :
    Prop :=
  Json.fieldsDepth fields ≤ depth → read (.byName fields) = some (value, .byName fields)

namespace Reads

theorem pure (value : α) : Reads depth (pure value) fields value := by
  intro _
  rfl

theorem bind {read : FieldReader α} {next : α → FieldReader β} {a : α} {b : β}
    (first : Reads depth read fields a) (rest : Reads depth (next a) fields b) :
    Reads depth (read >>= next) fields b := by
  intro hdepth
  change (read (.byName fields)).bind (fun x => next x.1 x.2) = _
  rw [first hdepth]
  exact rest hdepth

theorem field {value : α} {absent : Option α} {mayEnd : Bool}
    (found : fields.lookup key = some json) (h : Decodes depth decode json value) :
    Reads depth (Dump.field key absent mayEnd decode) fields value := by
  intro hdepth
  have hvalue := h (Nat.le_trans (Json.depth_le_of_lookup found) hdepth)
  simp only [Dump.field, found, hvalue, Option.map_some]

theorem required {value : α} (found : fields.lookup key = some json)
    (h : Decodes depth decode json value) : Reads depth (Dump.required key decode) fields value :=
  field found h

theorem withDefault {value default : α} (found : fields.lookup key = some json)
    (h : Decodes depth decode json value) :
    Reads depth (Dump.withDefault key default decode) fields value :=
  field found h

theorem optional {value : Option α} (found : fields.lookup key = some json)
    (h : Decodes depth (nullable decode) json value) :
    Reads depth (Dump.optional key decode) fields value :=
  field found h

/-- An optional field that may be left out altogether. -/
theorem omitted (missing : fields.lookup key = none) :
    Reads depth (Dump.optional key decode) fields none := by
  intro _
  simp only [Dump.optional, Dump.field, missing, Option.map_some]

theorem optionalListed {value : Option α} (found : fields.lookup key = some json)
    (h : Decodes depth (nullable decode) json value) :
    Reads depth (Dump.optionalListed key decode) fields value :=
  field found h

theorem readAll {read : FieldReader α} {value : α} (h : Reads depth read fields value)
    (hdepth : (Json.record fields).depth ≤ depth + 1) :
    Fields.readAll read (.byName fields) = some value := by
  rw [Json.depth] at hdepth
  rw [Fields.readAll, h (by omega)]

end Reads

namespace Decodes

variable {value : α} {read : FieldReader α}

/-- What is read deeper is read. -/
theorem shallower (h : Decodes (depth + 1) decode json value) : Decodes depth decode json value :=
  fun hdepth => h (Nat.le_succ_of_le hdepth)

theorem record (h : Reads depth read fields value) :
    Decodes (depth + 1) (Dump.record read) (.record fields) value :=
  h.readAll

theorem tagged {names : List String} {numbered : Bool} {name : String}
    {read : String → FieldReader α} (tag : fields.lookup key = some (.text name))
    (known : name ∈ names) (h : Reads depth (read name) fields value) :
    Decodes (depth + 1) (Dump.tagged key names numbered read) (.record fields) value := by
  intro hdepth
  have hall := h.readAll hdepth
  simp [Dump.tagged, tag, tag?, known, hall]

theorem taggedWithin {names : List String} {name : String} {read : String → FieldReader α}
    (tag : fields.lookup key = some (.text name)) (known : name ∈ names)
    (h : Reads depth (read name) fields value) :
    Decodes (depth + 1) (Dump.taggedWithin key names read) (.record fields) value := by
  intro hdepth
  have hall := h.readAll hdepth
  simp [Dump.taggedWithin, tag, tag?, known, hall]

theorem nullable {value : Option α} (written : ∀ x, encode x ≠ .null)
    (h : ∀ x ∈ value, Decodes depth decode (encode x) x) :
    Decodes depth (Dump.nullable decode) (.ofOption encode value) value := by
  intro hdepth
  cases value with
  | none => rfl
  | some x =>
    have hx := h x rfl hdepth
    change Dump.nullable decode (encode x) = some (some x)
    unfold Dump.nullable
    split
    · rename_i hnull
      exact absurd hnull (written x)
    · rw [hx]
      rfl

theorem list {values : List α} (h : ∀ x ∈ values, Decodes depth decode (encode x) x) :
    Decodes depth (Json.asList? decode) (.ofList encode values) values := by
  intro hdepth
  have hitems : Json.itemsDepth (values.map encode) ≤ depth :=
    Nat.le_trans (Nat.le_succ _) hdepth
  change (values.map encode).mapM decode = some values
  clear hdepth
  induction values with
  | nil => rfl
  | cons x values ih =>
    rw [List.map_cons, Json.itemsDepth] at hitems
    have hx := h x List.mem_cons_self (by omega)
    have hrest := ih (fun y hy => h y (List.mem_cons_of_mem _ hy)) (by omega)
    simp [List.mapM_cons, hx, hrest]

theorem text (text : String) : Decodes depth Json.asText? (.text text) text :=
  fun _ => rfl

theorem bool (value : Bool) : Decodes depth Json.asBool? (.bool value) value :=
  fun _ => rfl

end Decodes

end Dump

end LeastContext

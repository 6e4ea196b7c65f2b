import LeastContext.Type.Satisfaction
import LeastContext.Proofs.MethodSets
import Mathlib.Data.List.Chain
import Mathlib.Data.List.Duplicate
import Mathlib.Data.List.ProdSigma

namespace LeastContext

section Questions

variable {α : Type} {f g : α → Option Bool}

/-- A conjunction has no answer if one of its members has none and those before it hold. -/
theorem allM_eq_none {xs : List α} : xs.allM f = none ↔
    ∃ before x after, xs = before ++ x :: after ∧ (∀ y ∈ before, f y = some true) ∧
      f x = none := by
  induction xs with
  | nil => simp [List.allM]
  | cons x xs ih =>
    have hcons : (x :: xs).allM f = none ↔ f x = none ∨ f x = some true ∧ xs.allM f = none := by
      rw [List.allM]
      cases f x with
      | none => simp
      | some r => cases r <;> simp
    rw [hcons, ih]
    constructor
    · intro h
      rcases h with hx | ⟨hx, before, y, after, rfl, hb, hy⟩
      · exact ⟨[], x, xs, rfl, by simp, hx⟩
      · exact ⟨x :: before, y, after, rfl, by simpa [hx] using hb, hy⟩
    · intro h
      obtain ⟨before, y, after, he, hb, hy⟩ := h
      cases before with
      | nil =>
        cases he
        exact .inl hy
      | cons z before =>
        cases he
        exact .inr ⟨hb x List.mem_cons_self, before, y, after, rfl,
          fun w hw => hb w (List.mem_cons_of_mem _ hw), hy⟩

theorem allM_append_none {before after : List α} {x : α} (hb : ∀ y ∈ before, f y ≠ some false)
    (hx : f x = none) : (before ++ x :: after).allM f = none := by
  induction before with
  | nil => simp [hx]
  | cons y before ih =>
    have hrest := ih fun z hz => hb z (List.mem_cons_of_mem _ hz)
    rw [List.cons_append, List.allM]
    cases hy : f y with
    | none => rfl
    | some r =>
      cases r with
      | false => exact absurd hy (hb y List.mem_cons_self)
      | true => exact hrest

theorem allM_answer {xs : List α} {r : Bool} (h : xs.allM f = some r)
    (keeps : ∀ x ∈ xs, ∀ r, f x = some r → g x = some r) : xs.allM g = some r := by
  induction xs with
  | nil => exact h
  | cons x xs ih =>
    rw [List.allM] at h ⊢
    cases hx : f x with
    | none => simp [hx] at h
    | some s =>
      rw [keeps x List.mem_cons_self s hx]
      rw [hx] at h
      cases s with
      | false => exact h
      | true => exact ih h fun y hy => keeps y (List.mem_cons_of_mem _ hy)

theorem all_of_allM {xs : List α} {r : Bool} {g : α → Bool} (h : xs.allM f = some r)
    (agrees : ∀ x ∈ xs, ∀ s, f x = some s → g x = s) : xs.all g = r := by
  induction xs with
  | nil => exact Option.some.inj h
  | cons x xs ih =>
    rw [List.allM] at h
    cases hx : f x with
    | none => simp [hx] at h
    | some s =>
      rw [List.all_cons, agrees x List.mem_cons_self s hx]
      rw [hx] at h
      cases s with
      | false => exact Option.some.inj h
      | true => exact ih h fun y hy => agrees y (List.mem_cons_of_mem _ hy)

theorem any_of_anyM {xs : List α} {r : Bool} {g : α → Bool} (h : xs.anyM f = some r)
    (agrees : ∀ x ∈ xs, ∀ s, f x = some s → g x = s) : xs.any g = r := by
  induction xs with
  | nil => exact Option.some.inj h
  | cons x xs ih =>
    rw [List.anyM] at h
    cases hx : f x with
    | none => simp [hx] at h
    | some s =>
      rw [List.any_cons, agrees x List.mem_cons_self s hx]
      rw [hx] at h
      cases s with
      | false => exact ih h fun y hy => agrees y (List.mem_cons_of_mem _ hy)
      | true => exact Option.some.inj h

theorem allM_map {β : Type} (h : β → α) (xs : List β) :
    (xs.map h).allM f = xs.allM fun x => f (h x) := by
  induction xs with
  | nil => rfl
  | cons x xs ih => rw [List.map_cons, List.allM, List.allM, ih]

theorem allM_singleton (x : α) : [x].allM f = f x := by
  rw [List.allM]
  cases f x with
  | none => rfl
  | some r => cases r <;> rfl

/-- Of methods with different keys at most one is asked about. -/
theorem anyM_key {methods : List Method} (keys : (methods.map Method.key).Nodup)
    (key : MethodKey) (ask : Method → Option Bool) :
    (methods.anyM fun method => if method.key = key then ask method else some false) =
      match methods.find? (·.key = key) with
      | some method => ask method
      | none => some false := by
  induction methods with
  | nil => rfl
  | cons method methods ih =>
    obtain ⟨hnew, hrest⟩ := List.nodup_cons.mp keys
    by_cases hk : method.key = key
    · have hnone : methods.find? (·.key = key) = none := by
        rw [List.find?_eq_none]
        intro other ho he
        exact hnew (List.mem_map.mpr ⟨other, ho, by simpa [hk] using he⟩)
      have hfalse := ih hrest
      rw [hnone] at hfalse
      simp only [List.anyM, hk, if_true, List.find?_cons, decide_true]
      cases ask method with
      | none => rfl
      | some r => cases r <;> simp [hfalse]
    · simp only [List.anyM, hk, if_false, List.find?_cons, decide_false]
      exact ih hrest

end Questions

namespace Program

variable {p : Program}

/-- Whether two types are identical. -/
abbrev Question := TypeId × TypeId

/-- What a comparison of two types comes to: a list of questions that must all be answered with
yes, in the order they are asked. A difference that is seen without asking is a `none`. -/
def steps (p : Program) (q : Question) : List (Option Question) :=
  if q.1 = q.2 then []
  else
    match p.form q.1, p.form q.2 with
    | .named _, _ | _, .named _ => [none]
    | .basic x, .basic y => if x = y then [] else [none]
    | .pointer x, .pointer y | .slice x, .slice y => [some (x, y)]
    | .array m x, .array n y => if m = n then [some (x, y)] else [none]
    | .map k x, .map l y => [some (k, l), some (x, y)]
    | .signature s, .signature t =>
      if s.variadic = t.variadic ∧ s.params.length = t.params.length ∧
          s.results.length = t.results.length then
        ((s.params.map (·.type) ++ s.results).zip (t.params.map (·.type) ++ t.results)).map some
      else [none]
    | .struct fs, .struct gs =>
      if fs.length = gs.length then
        (fs.zip gs).map fun (f, g) =>
          if f.name = g.name ∧ f.embedded = g.embedded then some (f.type, g.type) else none
      else [none]
    | .interface _, .interface _ =>
      if (p.interfaceMethods q.1).length = (p.interfaceMethods q.2).length then
        (p.interfaceMethods q.1).map fun m =>
          ((p.interfaceMethods q.2).find? (·.key = m.key)).map fun n => (m.signature, n.signature)
      else [none]
    | _, _ => [none]

/-- The answer to a step, the questions being answered within a depth. -/
def answer (p : Program) (depth : Nat) : Option Question → Option Bool
  | some q => p.identicalWithin depth q.1 q.2
  | none => some false

theorem allM_unless_different (depth : Nat) (alike : Prop) [Decidable alike]
    (xs : List (Option Question)) :
    (if alike then xs else [none]).allM (p.answer depth) =
      if alike then xs.allM (p.answer depth) else some false := by
  split <;> rfl

/-- A comparison goes through its steps. -/
theorem identicalWithin_succ (depth : Nat) (q : Question) :
    p.identicalWithin (depth + 1) q.1 q.2 = (p.steps q).allM (p.answer depth) := by
  rw [identicalWithin_next, steps]
  split
  · rfl
  · generalize p.form q.1 = left, p.form q.2 = right
    split
    -- a name on either side, two maps, and forms that differ
    case h_1 | h_2 | h_7 | h_11 => simp [answer]
    case h_3 x y =>
      simp only [allM_unless_different, List.allM_nil]
      by_cases he : x = y <;> simp [he]
    case h_4 | h_5 => simp only [allM_singleton, answer]
    case h_6 => simp only [allM_unless_different, allM_singleton, answer]
    case h_8 => simp only [allM_unless_different, allM_map, answer]
    case h_9 =>
      simp only [allM_unless_different, allM_map]
      congr 2
      funext pair
      obtain ⟨f, g⟩ := pair
      dsimp only
      split <;> rfl
    -- the keys of a method set differ, so the search for a method asks about one at most
    case h_10 =>
      simp only [allM_unless_different, allM_map]
      congr 2
      funext m
      rw [anyM_key (interfaceMethods_keys q.2)]
      cases (p.interfaceMethods q.2).find? (·.key = m.key) <;> rfl

/-- More depth never changes an answer. -/
theorem identicalWithin_deeper {depth deeper : Nat} {q : Question} {r : Bool}
    (h : p.identicalWithin depth q.1 q.2 = some r) (hle : depth ≤ deeper) :
    p.identicalWithin deeper q.1 q.2 = some r := by
  induction depth generalizing deeper q r with
  | zero => cases h
  | succ depth ih =>
    obtain ⟨deeper, rfl⟩ := Nat.exists_eq_add_of_le' (Nat.lt_of_lt_of_le (Nat.succ_pos _) hle)
    rw [identicalWithin_succ] at h ⊢
    refine allM_answer h ?_
    intro s _ r hs
    cases s with
    | none => exact hs
    | some next => exact ih hs (by omega)

theorem answers_agree {depth other : Nat} {q : Question} {r s : Bool}
    (h : p.identicalWithin depth q.1 q.2 = some r)
    (h' : p.identicalWithin other q.1 q.2 = some s) : r = s := by
  have hr := identicalWithin_deeper h (Nat.le_max_left depth other)
  have hs := identicalWithin_deeper h' (Nat.le_max_right depth other)
  exact Option.some.inj (hr.symm.trans hs)

def Identical (p : Program) (q : Question) : Prop :=
  ∃ depth, p.identicalWithin depth q.1 q.2 = some true

theorem Identical.not_false {q : Question} (h : p.Identical q) (depth : Nat) :
    p.identicalWithin depth q.1 q.2 ≠ some false := by
  intro hf
  obtain ⟨other, ht⟩ := h
  cases answers_agree hf ht

/-- A question of a list of steps that is asked: those before it are answered with yes. -/
def Asked (p : Program) (steps : List (Option Question)) (next : Question) : Prop :=
  ∃ before after, steps = before ++ some next :: after ∧
    ∀ s ∈ before, ∃ r, s = some r ∧ p.Identical r

/-- Comparing two types asks for another comparison. -/
def Asks (p : Program) (q next : Question) : Prop :=
  p.Asked (p.steps q) next

/-- A question that leads back to itself. -/
def Recurs (p : Program) (q : Question) : Prop :=
  Relation.TransGen p.Asks q q

/-- Comparing two types ends: some depth of nested questions is enough. -/
def Settles (p : Program) (a b : TypeId) : Prop :=
  ∃ depth r, p.identicalWithin depth a b = some r

theorem unanswered_steps {depth : Nat} {steps : List (Option Question)} :
    steps.allM (p.answer depth) = none ↔
      ∃ next, p.Asked steps next ∧ p.identicalWithin depth next.1 next.2 = none := by
  constructor
  · intro h
    obtain ⟨before, x, after, he, hb, hx⟩ := allM_eq_none.mp h
    cases x with
    | none => cases hx
    | some next =>
      refine ⟨next, ⟨before, after, he, ?_⟩, hx⟩
      intro s hs
      have hyes := hb s hs
      cases s with
      | none => cases hyes
      | some r => exact ⟨r, rfl, depth, hyes⟩
  · intro hasked
    obtain ⟨next, ⟨before, after, rfl, hb⟩, hn⟩ := hasked
    refine allM_append_none ?_ hn
    intro s hs
    obtain ⟨r, rfl, hr⟩ := hb s hs
    exact hr.not_false depth

theorem unanswered_succ {depth : Nat} {q : Question} :
    p.identicalWithin (depth + 1) q.1 q.2 = none ↔
      ∃ next, p.Asks q next ∧ p.identicalWithin depth next.1 next.2 = none := by
  rw [identicalWithin_succ]
  exact unanswered_steps

theorem unanswered_of_asks {q next : Question} (h : p.Asks q next)
    (hn : ∀ depth, p.identicalWithin depth next.1 next.2 = none) (depth : Nat) :
    p.identicalWithin depth q.1 q.2 = none := by
  cases depth with
  | zero => rfl
  | succ depth => exact unanswered_succ.mpr ⟨next, h, hn depth⟩

theorem Recurs.unanswered {q : Question} (h : p.Recurs q) (depth : Nat) :
    p.identicalWithin depth q.1 q.2 = none := by
  induction depth generalizing q with
  | zero => rfl
  | succ depth ih =>
    obtain ⟨next, step, back⟩ := Relation.TransGen.head'_iff.mp h
    exact unanswered_succ.mpr ⟨next, step, ih (.tail' back step)⟩

/-- Where the questions lead to one that recurs there is no answer at any depth. -/
theorem unanswered_of_reaches {q r : Question} (h : Relation.ReflTransGen p.Asks q r)
    (hr : p.Recurs r) (depth : Nat) : p.identicalWithin depth q.1 q.2 = none := by
  induction h using Relation.ReflTransGen.head_induction_on generalizing depth with
  | refl => exact hr.unanswered depth
  | head step _ ih => exact unanswered_of_asks step ih depth

/-- A comparison that is not answered within a depth nests that many questions. -/
theorem unanswered_path {depth : Nat} {q : Question}
    (h : p.identicalWithin depth q.1 q.2 = none) :
    ∃ path : List Question, path.length = depth ∧ List.IsChain p.Asks (q :: path) := by
  induction depth generalizing q with
  | zero => exact ⟨[], rfl, .singleton q⟩
  | succ depth ih =>
    obtain ⟨next, step, hn⟩ := unanswered_succ.mp h
    obtain ⟨path, hlen, hpath⟩ := ih hn
    exact ⟨next :: path, by simp [hlen], .cons_cons step hpath⟩

/-- Two interfaces written out, not one. -/
def Literals (p : Program) (q : Question) : Prop :=
  q.1 ≠ q.2 ∧ (∃ body, p.form q.1 = .interface body) ∧ ∃ body, p.form q.2 = .interface body

/-- What is asked is about parts of the two types, or about the signatures that two interface
literals have under one key. -/
theorem mem_steps {q next : Question} (h : some next ∈ p.steps q) :
    (p.form q.1).Part next.1 ∧ (p.form q.2).Part next.2 ∨
      p.Literals q ∧ ∃ m ∈ p.interfaceMethods q.1, ∃ n ∈ p.interfaceMethods q.2,
        m.key = n.key ∧ next = (m.signature, n.signature) := by
  unfold steps at h
  split at h
  · cases h
  · rename_i hne
    split at h
    case h_10 hl hr =>
      split at h
      · obtain ⟨m, hm, hn⟩ := List.mem_map.mp h
        obtain ⟨n, hfind, rfl⟩ := Option.map_eq_some_iff.mp hn
        have hkey : n.key = m.key := by simpa using List.find?_some hfind
        exact .inr ⟨⟨hne, ⟨_, hl⟩, ⟨_, hr⟩⟩, m, hm, n, List.mem_of_find?_eq_some hfind,
          hkey.symm, rfl⟩
      · simp at h
    case h_1 | h_2 | h_11 => simp at h
    case h_3 => split at h <;> simp at h
    all_goals
      rename_i hl hr
      rw [hl, hr]
      left
    case h_4 =>
      cases List.mem_singleton.mp h
      exact ⟨.pointerElem, .pointerElem⟩
    case h_5 =>
      cases List.mem_singleton.mp h
      exact ⟨.sliceElem, .sliceElem⟩
    case h_6 =>
      split at h
      · cases List.mem_singleton.mp h
        exact ⟨.arrayElem, .arrayElem⟩
      · simp at h
    case h_7 =>
      rcases List.mem_cons.mp h with he | h
      · cases he
        exact ⟨.mapKey, .mapKey⟩
      · cases List.mem_singleton.mp h
        exact ⟨.mapValue, .mapValue⟩
    case h_8 =>
      split at h
      · obtain ⟨_, hz, he⟩ := List.mem_map.mp h
        cases he
        have hparts := List.of_mem_zip hz
        exact ⟨TypeForm.mem_parts.mp hparts.1, TypeForm.mem_parts.mp hparts.2⟩
      · simp at h
    case h_9 =>
      split at h
      · obtain ⟨⟨f, g⟩, hz, he⟩ := List.mem_map.mp h
        obtain ⟨hf, hg⟩ := List.of_mem_zip hz
        dsimp only at he
        split at he
        · cases he
          exact ⟨.field hf, .field hg⟩
        · cases he
      · simp at h

theorem Asks.mem_steps {q next : Question} (h : p.Asks q next) : some next ∈ p.steps q := by
  obtain ⟨before, after, he, _⟩ := h
  simp [he]

section WellFormed

variable (wf : p.WellFormed)
include wf

theorem asks_inside {q next : Question} (h : p.Asks q next) :
    next.1.index < p.types.size ∧ next.2.index < p.types.size := by
  rcases Program.mem_steps h.mem_steps with ⟨hl, hr⟩ | ⟨_, m, hm, n, hn, _, rfl⟩
  · exact ⟨part_inside wf.resolved hl, part_inside wf.resolved hr⟩
  · exact ⟨interfaceMethods_inside wf hm, interfaceMethods_inside wf hn⟩

/-- A long walk of questions meets one of them again, there being no more than pairs of types. -/
theorem recurs_of_path {q : Question} {path : List Question}
    (hpath : List.IsChain p.Asks (q :: path)) (hlong : p.types.size * p.types.size < path.length) :
    ∃ r, Relation.ReflTransGen p.Asks q r ∧ p.Recurs r := by
  have hall : (q :: path).Pairwise (Relation.TransGen p.Asks) :=
    (hpath.imp fun _ _ step => Relation.TransGen.single step).pairwise
  obtain ⟨hreach, hpairs⟩ := List.pairwise_cons.mp hall
  have hsub : path ⊆ p.typeIds ×ˢ p.typeIds := by
    intro r hr
    obtain ⟨last, _, step⟩ := Relation.TransGen.tail'_iff.mp (hreach r hr)
    have hin := asks_inside wf step
    exact List.mem_product.mpr ⟨mem_typeIds.mpr hin.1, mem_typeIds.mpr hin.2⟩
  have hdup : ¬ path.Nodup := by
    intro hnodup
    have hle := hnodup.length_le_of_subset hsub
    simp [List.length_product, typeIds] at hle
    omega
  obtain ⟨r, hr⟩ := List.exists_duplicate_iff_not_nodup.mpr hdup
  have htwice := hpairs.sublist (List.duplicate_iff_sublist.mp hr)
  exact ⟨r, (hreach r hr.mem).to_reflTransGen, List.pairwise_pair.mp htwice⟩

theorem identical?_eq_none {a b : TypeId} : p.identical? a b = none ↔
    ∃ q, Relation.ReflTransGen p.Asks (a, b) q ∧ p.Recurs q := by
  constructor
  · intro h
    obtain ⟨path, hlen, hpath⟩ := unanswered_path (q := (a, b)) h
    exact recurs_of_path wf hpath (by omega)
  · intro hreaches
    obtain ⟨q, hreach, hq⟩ := hreaches
    exact unanswered_of_reaches hreach hq _

/-- The bound of the comparison is enough. -/
theorem settles_iff {a b : TypeId} : p.Settles a b ↔ ∃ r, p.identical? a b = some r := by
  constructor
  · intro hsettles
    obtain ⟨depth, r, h⟩ := hsettles
    cases hi : p.identical? a b with
    | some r => exact ⟨r, rfl⟩
    | none =>
      obtain ⟨q, hreach, hq⟩ := (identical?_eq_none wf).mp hi
      have hn := unanswered_of_reaches hreach hq depth
      rw [h] at hn
      cases hn
  · intro hsettles
    obtain ⟨r, h⟩ := hsettles
    exact ⟨_, r, h⟩

end WellFormed

/-- An interface has a method of some signature through the name of an embedded interface. -/
def Inherits (p : Program) (a signature : TypeId) : Prop :=
  ∃ name e, Relation.TransGen p.Embeds a name ∧ (p.form name).isNamed = true ∧
    Relation.ReflTransGen p.Embeds name e ∧ ∃ method, p.Declares e method ∧
      method.signature = signature

theorem Inherits.of_embeds {a b signature : TypeId} (step : p.Embeds a b)
    (h : p.Inherits b signature) : p.Inherits a signature := by
  obtain ⟨name, e, hreach, rest⟩ := h
  exact ⟨name, e, .head step hreach, rest⟩

theorem declared_part {a : TypeId} {method : Method} (h : p.Declares a method)
    (plain : (p.form a).isNamed = false) : (p.form a).Part method.signature := by
  obtain ⟨body, hbody, written, hw, rfl⟩ := h
  obtain ⟨c, hd, hform⟩ := interface?_eq_some.mp hbody
  obtain rfl := hd.eq_of_plain plain
  rw [hform]
  exact .method hw

theorem embedded_part {a b : TypeId} (h : p.Embeds a b) (plain : (p.form a).isNamed = false) :
    (p.form a).Part b := by
  obtain ⟨c, body, hd, hform, hb⟩ := h
  obtain rfl := hd.eq_of_plain plain
  rw [hform]
  exact .embed hb

/-- An interface literal has its methods through a name or in what it is made of. -/
theorem declared_part_or_inherited {a e : TypeId} {method : Method}
    (hreach : Relation.ReflTransGen p.Embeds a e) (hdecl : p.Declares e method)
    (plain : (p.form a).isNamed = false) :
    Relation.TransGen (fun a b => (p.form a).Part b) a method.signature ∨
      p.Inherits a method.signature := by
  induction hreach using Relation.ReflTransGen.head_induction_on with
  | refl => exact .inl (.single (declared_part hdecl plain))
  | @head a b step hrest ih =>
    cases hb : (p.form b).isNamed with
    | true => exact .inr ⟨b, e, .single step, hb, hrest, method, hdecl, rfl⟩
    | false =>
      rcases ih hb with hpart | hinherit
      · exact .inl (.head (embedded_part step plain) hpart)
      · exact .inr (hinherit.of_embeds step)

/-- A step on the way from one question to another that goes through a name on one side. -/
def PassesName (p : Program) (side : Question → TypeId) (q r : Question) : Prop :=
  ∃ asked next, Relation.ReflTransGen p.Asks q asked ∧ p.Asks asked next ∧
    Relation.ReflTransGen p.Asks next r ∧ p.Literals asked ∧ p.Inherits (side asked) (side next)

/-- On either side a walk of questions goes down the parts of types, unless it passes a name. -/
theorem parts_or_passesName {side : Question → TypeId} (hside : side = Prod.fst ∨ side = Prod.snd)
    {q r : Question} (h : Relation.TransGen p.Asks q r) :
    Relation.TransGen (fun a b => (p.form a).Part b) (side q) (side r) ∨
      p.PassesName side q r := by
  have one : ∀ {q r}, p.Asks q r →
      Relation.TransGen (fun a b => (p.form a).Part b) (side q) (side r) ∨
        p.PassesName side q r := by
    intro q r step
    have plain : ∀ {a : TypeId}, (∃ body, p.form a = .interface body) →
        (p.form a).isNamed = false := by
      rintro a ⟨body, hform⟩
      rw [hform]
      rfl
    rcases mem_steps step.mem_steps with ⟨hl, hr⟩ | ⟨hlit, m, hm, n, hn, _, rfl⟩
    · rcases hside with rfl | rfl
      · exact .inl (.single hl)
      · exact .inl (.single hr)
    · have found : Relation.TransGen (fun a b => (p.form a).Part b) (side q)
          (side (m.signature, n.signature)) ∨
          p.Inherits (side q) (side (m.signature, n.signature)) := by
        rcases hside with rfl | rfl
        · obtain ⟨e, hreach, hdecl⟩ := mem_interfaceMethods hm
          exact declared_part_or_inherited hreach hdecl (plain hlit.2.1)
        · obtain ⟨e, hreach, hdecl⟩ := mem_interfaceMethods hn
          exact declared_part_or_inherited hreach hdecl (plain hlit.2.2)
      exact found.imp_right fun hi => ⟨q, _, .refl, step, .refl, hlit, hi⟩
  induction h with
  | single step => exact one step
  | @tail r s hwalk step ih =>
    rcases ih with hparts | ⟨asked, next, hto, hask, hfrom, hlit, hi⟩
    · rcases one step with hmore | ⟨asked, next, hto, hask, hfrom, hlit, hi⟩
      · exact .inl (hparts.trans hmore)
      · exact .inr ⟨asked, next, hwalk.to_reflTransGen.trans hto, hask, hfrom, hlit, hi⟩
    · exact .inr ⟨asked, next, hto, hask, hfrom.tail step, hlit, hi⟩

/-- Interface satisfaction with every comparison cut off at a depth. -/
def satisfiesWithin (p : Program) (depth : Nat) (methods : List Method) (interface : TypeId) :
    Option Bool :=
  if p.isInterface interface then
    (p.interfaceMethods interface).allM fun wanted =>
      methods.anyM fun method =>
        if method.key = wanted.key then
          p.identicalWithin depth method.signature wanted.signature
        else some false
  else some false

def implementsWithin (p : Program) (depth : Nat) (id interface : TypeId) : Option Bool :=
  if id = interface then some (p.isInterface interface)
  else p.satisfiesWithin depth (p.methodSet id) interface

def pointerImplementsWithin (p : Program) (depth : Nat) (named interface : TypeId) :
    Option Bool :=
  p.satisfiesWithin depth (p.promotedMethods named true) interface

/-- The questions of interface satisfaction: the signatures under each key of the interface. -/
def satisfactionSteps (p : Program) (methods : List Method) (interface : TypeId) :
    List (Option Question) :=
  if p.isInterface interface then
    (p.interfaceMethods interface).map fun wanted =>
      (methods.find? (·.key = wanted.key)).map fun method => (method.signature, wanted.signature)
  else [none]

def implementsSteps (p : Program) (id interface : TypeId) : List (Option Question) :=
  if id = interface then if p.isInterface interface then [] else [none]
  else p.satisfactionSteps (p.methodSet id) interface

theorem satisfiesWithin_eq {methods : List Method} (keys : (methods.map Method.key).Nodup)
    (depth : Nat) (interface : TypeId) :
    p.satisfiesWithin depth methods interface =
      (p.satisfactionSteps methods interface).allM (p.answer depth) := by
  simp only [satisfiesWithin, satisfactionSteps, allM_unless_different, allM_map]
  congr 2
  funext wanted
  rw [anyM_key keys]
  cases methods.find? (·.key = wanted.key) <;> rfl

theorem implementsWithin_eq (depth : Nat) (id interface : TypeId) :
    p.implementsWithin depth id interface =
      (p.implementsSteps id interface).allM (p.answer depth) := by
  rw [implementsWithin, implementsSteps]
  split
  · rw [allM_unless_different, List.allM_nil]
    cases p.isInterface interface <;> rfl
  · exact satisfiesWithin_eq (methodSet_keys id) depth interface

section WellFormed

variable (wf : p.WellFormed)
include wf

/-- A list of steps ends unless a question asked on the way leads to one that recurs. -/
theorem steps_settle_iff {steps : List (Option Question)} :
    (∃ depth r, steps.allM (p.answer depth) = some r) ↔
      ¬ ∃ first q, p.Asked steps first ∧ Relation.ReflTransGen p.Asks first q ∧ p.Recurs q := by
  constructor
  · rintro ⟨depth, r, h⟩ ⟨first, q, hasked, hreach, hq⟩
    have hn := unanswered_steps.mpr ⟨first, hasked, unanswered_of_reaches hreach hq depth⟩
    rw [h] at hn
    cases hn
  · intro h
    refine ⟨p.types.size * p.types.size + 1, Option.isSome_iff_exists.mp ?_⟩
    rw [Option.isSome_iff_ne_none]
    intro hn
    obtain ⟨first, hasked, hfirst⟩ := unanswered_steps.mp hn
    obtain ⟨q, hreach, hq⟩ := (identical?_eq_none wf).mp hfirst
    exact h ⟨first, q, hasked, hreach, hq⟩

theorem identicalWithin_answer {depth : Nat} {a b : TypeId} {r : Bool}
    (h : p.identicalWithin depth a b = some r) : p.identical? a b = some r := by
  obtain ⟨s, hs⟩ := (settles_iff wf).mp ⟨depth, r, h⟩
  rw [hs, answers_agree (q := (a, b)) h hs]

/-- Where satisfaction ends, it ends with the answer of the program. -/
theorem satisfiesWithin_answer {depth : Nat} {methods : List Method} {interface : TypeId}
    {r : Bool} (h : p.satisfiesWithin depth methods interface = some r) :
    p.satisfies methods interface = r := by
  unfold satisfiesWithin at h
  split at h
  · rename_i hi
    rw [satisfies_def, hi, Bool.true_and]
    refine all_of_allM h ?_
    intro wanted _ s hs
    refine any_of_anyM hs ?_
    intro method _ t ht
    split at ht
    · rename_i hk
      simp [hk, identical_def, identicalWithin_answer wf ht]
    · rename_i hk
      simpa [hk] using ht
  · rename_i hi
    simpa [satisfies_def, hi] using h

theorem implementsWithin_answer {depth : Nat} {id interface : TypeId} {r : Bool}
    (h : p.implementsWithin depth id interface = some r) : p.implements id interface = r := by
  unfold implementsWithin at h
  rw [implements_def]
  split at h
  · rename_i he
    rw [if_pos he]
    exact Option.some.inj h
  · rename_i hne
    rw [if_neg hne]
    exact satisfiesWithin_answer wf h

theorem Recurs.passesName {q : Question} (h : p.Recurs q) {side : Question → TypeId}
    (hside : side = Prod.fst ∨ side = Prod.snd) : p.PassesName side q q := by
  rcases parts_or_passesName hside h with hparts | hname
  · exact absurd hparts (wf.parts_acyclic _)
  · exact hname

end WellFormed

/-- When the comparisons of a program end. A comparison or a check of satisfaction ends, with the
answer of the program, unless the questions it asks lead to one that recurs; and a question that
recurs passes, on either side, two interface literals and the name of an embedded interface. -/
structure SettlesUnlessRecurring (p : Program) : Prop where
  identical : ∀ a b, p.Settles a b ↔
    ¬ ∃ q, Relation.ReflTransGen p.Asks (a, b) q ∧ p.Recurs q
  implements : ∀ id interface, (∃ depth r, p.implementsWithin depth id interface = some r) ↔
    ¬ ∃ first q, p.Asked (p.implementsSteps id interface) first ∧
      Relation.ReflTransGen p.Asks first q ∧ p.Recurs q
  pointerImplements : ∀ named interface,
    (∃ depth r, p.pointerImplementsWithin depth named interface = some r) ↔
      ¬ ∃ first q, p.Asked (p.satisfactionSteps (p.promotedMethods named true) interface) first ∧
        Relation.ReflTransGen p.Asks first q ∧ p.Recurs q
  identical_answer : ∀ a b r,
    (∃ depth, p.identicalWithin depth a b = some r) ↔ p.identical? a b = some r
  implements_answer : ∀ depth id interface r,
    p.implementsWithin depth id interface = some r → p.implements id interface = r
  pointerImplements_answer : ∀ depth named interface r,
    p.pointerImplementsWithin depth named interface = some r →
      p.pointerImplements named interface = r
  passes_names : ∀ q, p.Recurs q → p.PassesName Prod.fst q q ∧ p.PassesName Prod.snd q q

theorem comparisons_settle_unless_recurring (p : Program) (valid : p.defect? = none) :
    p.SettlesUnlessRecurring := by
  have wf := WellFormed.of_defect? valid
  refine ⟨?_, ?_, ?_, ?_, ?_, ?_, ?_⟩
  · intro a b
    rw [settles_iff wf, ← identical?_eq_none wf, ← Option.isSome_iff_exists,
      Option.isSome_iff_ne_none]
  · intro id interface
    simp only [implementsWithin_eq]
    exact steps_settle_iff wf
  · intro named interface
    simp only [pointerImplementsWithin, satisfiesWithin_eq (promotedMethods_keys named true)]
    exact steps_settle_iff wf
  · intro a b r
    constructor
    · intro hsettles
      obtain ⟨depth, h⟩ := hsettles
      exact identicalWithin_answer wf h
    · intro h
      exact ⟨_, h⟩
  · intro depth id interface r h
    exact implementsWithin_answer wf h
  · intro depth named interface r h
    exact satisfiesWithin_answer wf h
  · intro q hq
    exact ⟨hq.passesName wf (.inl rfl), hq.passesName wf (.inr rfl)⟩

/-- Two interface literals, each with a method through the name of an interface that mentions the
literal: `interface { Left }` and `interface { Right }` with `Left = interface { M(interface
{ Left }, int) }` and `Right = interface { M(interface { Right }, string) }`. -/
def mutualLiterals : Program where
  package := ⟨0⟩
  packages := #[⟨"p", "p"⟩]
  types := #[
    .basic "int",
    .basic "string",
    .interface ⟨[], [⟨4⟩]⟩,
    .interface ⟨[], [⟨5⟩]⟩,
    .named ⟨"Left", some ⟨0⟩, ⟨6⟩, []⟩,
    .named ⟨"Right", some ⟨0⟩, ⟨7⟩, []⟩,
    .interface ⟨[⟨"M", none, ⟨8⟩⟩], []⟩,
    .interface ⟨[⟨"M", none, ⟨9⟩⟩], []⟩,
    .signature ⟨[⟨⟨2⟩, none⟩, ⟨⟨0⟩, none⟩], [], false⟩,
    .signature ⟨[⟨⟨3⟩, none⟩, ⟨⟨1⟩, none⟩], [], false⟩]
  objects := #[]
  files := []

theorem mutualLiterals_valid : mutualLiterals.defect? = none := by
  decide

theorem mutualLiterals_recurs : mutualLiterals.Recurs (⟨2⟩, ⟨3⟩) := by
  have literals : mutualLiterals.Asks (⟨2⟩, ⟨3⟩) (⟨8⟩, ⟨9⟩) :=
    ⟨[], [], by decide, by simp⟩
  have signatures : mutualLiterals.Asks (⟨8⟩, ⟨9⟩) (⟨2⟩, ⟨3⟩) :=
    ⟨[], [some (⟨0⟩, ⟨1⟩)], by decide, by simp⟩
  exact .tail (.single literals) signatures

theorem mutualLiterals_settle_unless_recurring :
    mutualLiterals.defect? = none ∧ mutualLiterals.SettlesUnlessRecurring :=
  ⟨mutualLiterals_valid, comparisons_settle_unless_recurring _ mutualLiterals_valid⟩

/-- A program without defects in which comparing two types never ends. -/
theorem mutualLiterals_never_settle :
    mutualLiterals.defect? = none ∧ (⟨2⟩ : TypeId) ∈ mutualLiterals.typeIds ∧
      (⟨3⟩ : TypeId) ∈ mutualLiterals.typeIds ∧
      ∀ depth, mutualLiterals.identicalWithin depth ⟨2⟩ ⟨3⟩ = none :=
  ⟨mutualLiterals_valid, by decide, by decide, mutualLiterals_recurs.unanswered⟩

end Program

end LeastContext

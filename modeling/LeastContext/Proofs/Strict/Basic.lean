import LeastContext.Evaluation

namespace LeastContext.Strict

open Evaluation

variable {α β σ : Type}

@[simp]
theorem ok_bind (a : α) (f : α → Strict β) : (Except.ok a >>= f) = f a :=
  rfl

@[simp]
theorem error_bind (fault : Fault) (f : α → Strict β) :
    (Except.error fault >>= f : Strict β) = .error fault :=
  rfl

@[simp]
theorem pure_eq (a : α) : (pure a : Strict α) = .ok a :=
  rfl

theorem bind_eq_ok {run : Strict α} {f : α → Strict β} {b : β} :
    (run >>= f) = .ok b ↔ ∃ a, run = .ok a ∧ f a = .ok b := by
  cases run <;> simp

theorem entry_ok {table : Array α} {index : Nat} (h : index < table.size) (reference : Reference)
    (other : α) :
    entry (m := Strict) table index reference other = .ok (table.getD index other) := by
  simp [entry, Array.getD, h]

/-- A run that comes to an end without a fault. -/
def Returns (run : Strict α) : Prop :=
  ∃ value, run = .ok value

theorem returns_iff_isOk {run : Strict α} : Returns run ↔ run.isOk = true := by
  cases run <;> simp [Returns, Except.isOk, Except.toBool]

instance (run : Strict α) : Decidable (Returns run) :=
  decidable_of_iff' _ returns_iff_isOk

theorem bind_returns {run : Strict α} {f : α → Strict β} :
    Returns (run >>= f) ↔ ∃ a, run = .ok a ∧ Returns (f a) := by
  cases run <;> simp [Returns]

theorem map_returns {run : Strict α} {f : α → β} :
    Returns (run >>= fun a => pure (f a)) ↔ Returns run := by
  cases run <;> simp [Returns]

@[simp]
theorem ok_returns (a : α) : Returns (.ok a : Strict α) :=
  ⟨a, rfl⟩

/-- A run that comes to a value unless it stops at a fault for which there is an excuse. -/
def Follows (excused : Fault → Prop) (run : Strict α) (value : α) : Prop :=
  run = .ok value ∨ ∃ fault, excused fault ∧ run = .error fault

@[simp]
theorem follows_never {run : Strict α} {value : α} :
    Follows (fun _ => False) run value ↔ run = .ok value := by
  simp [Follows]

namespace Follows

variable {excused : Fault → Prop} {run : Strict α} {value : α} {xs : List α}

theorem of_ok (h : run = .ok value) : Follows excused run value :=
  .inl h

theorem eq_of_ok {other : α} (h : Follows excused run value) (returned : run = .ok other) :
    other = value := by
  rcases h with h | ⟨fault, _, h⟩
  · exact Except.ok.inj (returned.symm.trans h)
  · cases returned.symm.trans h

theorem ok_of_returns (h : Follows excused run value) (returns : Returns run) :
    run = .ok value := by
  obtain ⟨other, hother⟩ := returns
  rw [hother, h.eq_of_ok hother]

theorem bind {f : α → Strict β} {result : β} (h : Follows excused run value)
    (next : Follows excused (f value) result) : Follows excused (run >>= f) result := by
  rcases h with rfl | ⟨fault, hfault, rfl⟩
  · exact next
  · exact .inr ⟨fault, hfault, rfl⟩

theorem map {f : α → β} (h : Follows excused run value) :
    Follows excused (run >>= fun x => pure (f x)) (f value) :=
  h.bind (of_ok rfl)

theorem mapM {f : α → Strict β} {g : α → β} (h : ∀ x ∈ xs, Follows excused (f x) (g x)) :
    Follows excused (xs.mapM f) (xs.map g) := by
  induction xs with
  | nil => exact of_ok rfl
  | cons x xs ih =>
    have hx := h x List.mem_cons_self
    have hxs := ih fun y hy => h y (List.mem_cons_of_mem _ hy)
    rw [List.mapM_cons]
    exact hx.bind hxs.map

theorem keep {test : α → Strict Bool} {passes : α → Bool}
    (h : ∀ x ∈ xs, Follows excused (test x) (passes x)) :
    Follows excused (keep test xs) (xs.filter passes) := by
  induction xs with
  | nil => exact of_ok rfl
  | cons x xs ih =>
    have hx := h x List.mem_cons_self
    have hxs := ih fun y hy => h y (List.mem_cons_of_mem _ hy)
    rw [Evaluation.keep, List.filter_cons]
    refine hx.bind ?_
    split
    · exact hxs.map
    · exact hxs

theorem foldlM {f : σ → α → Strict σ} {g : σ → α → σ}
    (h : ∀ x ∈ xs, ∀ s, Follows excused (f s x) (g s x)) (s : σ) :
    Follows excused (xs.foldlM f s) (xs.foldl g s) := by
  induction xs generalizing s with
  | nil => exact of_ok rfl
  | cons x xs ih =>
    rw [List.foldlM_cons, List.foldl_cons]
    exact (h x List.mem_cons_self s).bind
      (ih (fun y hy => h y (List.mem_cons_of_mem _ hy)) (g s x))

theorem anyM {test : α → Strict Bool} {passes : α → Bool}
    (h : ∀ x ∈ xs, Follows excused (test x) (passes x)) :
    Follows excused (xs.anyM test) (xs.any passes) := by
  induction xs with
  | nil => exact of_ok rfl
  | cons x xs ih =>
    rw [List.anyM, List.any_cons]
    refine (h x List.mem_cons_self).bind ?_
    cases passes x with
    | true => exact of_ok rfl
    | false => exact ih fun y hy => h y (List.mem_cons_of_mem _ hy)

theorem allM {test : α → Strict Bool} {passes : α → Bool}
    (h : ∀ x ∈ xs, Follows excused (test x) (passes x)) :
    Follows excused (xs.allM test) (xs.all passes) := by
  induction xs with
  | nil => exact of_ok rfl
  | cons x xs ih =>
    rw [List.allM, List.all_cons]
    refine (h x List.mem_cons_self).bind ?_
    cases passes x with
    | true => exact ih fun y hy => h y (List.mem_cons_of_mem _ hy)
    | false => exact of_ok rfl

end Follows

section Lists

variable {xs : List α}

theorem mapM_ok {f : α → Strict β} {g : α → β} (h : ∀ x ∈ xs, f x = .ok (g x)) :
    xs.mapM f = .ok (xs.map g) :=
  follows_never.mp (Follows.mapM fun x hx => .of_ok (h x hx))

theorem keep_ok {test : α → Strict Bool} {passes : α → Bool}
    (h : ∀ x ∈ xs, test x = .ok (passes x)) : keep test xs = .ok (xs.filter passes) :=
  follows_never.mp (Follows.keep fun x hx => .of_ok (h x hx))

theorem foldlM_ok {f : σ → α → Strict σ} {g : σ → α → σ}
    (h : ∀ x ∈ xs, ∀ s, f s x = .ok (g s x)) (s : σ) : xs.foldlM f s = .ok (xs.foldl g s) :=
  follows_never.mp (Follows.foldlM (fun x hx s => .of_ok (h x hx s)) s)

theorem anyM_ok {test : α → Strict Bool} {passes : α → Bool}
    (h : ∀ x ∈ xs, test x = .ok (passes x)) : xs.anyM test = .ok (xs.any passes) :=
  follows_never.mp (Follows.anyM fun x hx => .of_ok (h x hx))

theorem allM_ok {test : α → Strict Bool} {passes : α → Bool}
    (h : ∀ x ∈ xs, test x = .ok (passes x)) : xs.allM test = .ok (xs.all passes) :=
  follows_never.mp (Follows.allM fun x hx => .of_ok (h x hx))

theorem keep_map {test : β → Strict Bool} {f : α → β} :
    keep test (xs.map f) = (do return (← keep (fun x => test (f x)) xs).map f) := by
  induction xs with
  | nil => rfl
  | cons x xs ih =>
    rw [List.map_cons, keep, keep, ih]
    cases test (f x) with
    | error fault => rfl
    | ok passes => cases passes <;> cases keep (fun x => test (f x)) xs <;> rfl

theorem foldlM_congr {f g : σ → α → Strict σ} (h : ∀ x ∈ xs, ∀ s, f s x = g s x) (s : σ) :
    xs.foldlM f s = xs.foldlM g s := by
  induction xs generalizing s with
  | nil => rfl
  | cons x xs ih =>
    rw [List.foldlM_cons, List.foldlM_cons, h x List.mem_cons_self s]
    congr 1
    funext t
    exact ih (fun y hy => h y (List.mem_cons_of_mem _ hy)) t

theorem mapM_returns {f : α → Strict β} :
    Returns (xs.mapM f) ↔ ∀ x ∈ xs, Returns (f x) := by
  induction xs with
  | nil => simp
  | cons x xs ih =>
    rw [List.mapM_cons, bind_returns, List.forall_mem_cons, ← ih]
    constructor
    · rintro ⟨y, hy, hrest⟩
      obtain ⟨ys, hys, _⟩ := bind_returns.mp hrest
      exact ⟨⟨y, hy⟩, ys, hys⟩
    · rintro ⟨⟨y, hy⟩, ys, hys⟩
      exact ⟨y, hy, bind_returns.mpr ⟨ys, hys, ok_returns _⟩⟩

theorem mapM_paired_eq_ok {f : α → Strict β} {results : List (α × β)} :
    (xs.mapM fun x => do return (x, ← f x)) = .ok results ↔
      results.map Prod.fst = xs ∧ ∀ result ∈ results, f result.1 = .ok result.2 := by
  induction xs generalizing results with
  | nil => cases results <;> simp
  | cons x xs ih =>
    rw [List.mapM_cons]
    constructor
    · intro h
      obtain ⟨first, hfirst, hrest⟩ := bind_eq_ok.mp h
      obtain ⟨y, hy, hpair⟩ := bind_eq_ok.mp hfirst
      obtain ⟨rest, hrest, hcons⟩ := bind_eq_ok.mp hrest
      obtain ⟨hkeys, hvalues⟩ := ih.mp hrest
      cases hpair
      cases hcons
      exact ⟨by simp [hkeys], List.forall_mem_cons.mpr ⟨hy, hvalues⟩⟩
    · rintro ⟨hkeys, hvalues⟩
      cases results with
      | nil => cases hkeys
      | cons first rest =>
        obtain ⟨hfirst, hvalues⟩ := List.forall_mem_cons.mp hvalues
        obtain ⟨rfl, hrest⟩ := List.cons.inj hkeys
        rw [ih.mpr ⟨hrest, hvalues⟩, hfirst]
        rfl

theorem keep_returns {test : α → Strict Bool} :
    Returns (keep test xs) ↔ ∀ x ∈ xs, Returns (test x) := by
  induction xs with
  | nil => simp [keep]
  | cons x xs ih =>
    rw [keep, bind_returns, List.forall_mem_cons, ← ih]
    constructor
    · rintro ⟨passes, hx, hrest⟩
      refine ⟨⟨passes, hx⟩, ?_⟩
      cases passes with
      | false => exact hrest
      | true =>
        obtain ⟨kept, hkept, _⟩ := bind_returns.mp hrest
        exact ⟨kept, hkept⟩
    · rintro ⟨⟨passes, hx⟩, kept, hkept⟩
      refine ⟨passes, hx, ?_⟩
      cases passes with
      | false => exact ⟨kept, hkept⟩
      | true => exact bind_returns.mpr ⟨kept, hkept, ok_returns _⟩

/-- A search in an ordered list returns if every test does that no hit comes before. -/
theorem anyM_returns {test : α → Strict Bool} {before : α → α → Prop}
    (asymm : ∀ x y, before x y → ¬ before y x) (ordered : xs.Pairwise before) :
    Returns (xs.anyM test) ↔
      ∀ x ∈ xs, Returns (test x) ∨ ∃ y ∈ xs, before y x ∧ test y = .ok true := by
  induction xs with
  | nil => simp [List.anyM]
  | cons x xs ih =>
    obtain ⟨first, ordered⟩ := List.pairwise_cons.mp ordered
    rw [List.anyM, bind_returns]
    constructor
    · rintro ⟨hit, hx, hrest⟩ z hz
      rcases List.mem_cons.mp hz with rfl | hz
      · exact .inl ⟨hit, hx⟩
      · cases hit with
        | true => exact .inr ⟨x, List.mem_cons_self, first z hz, hx⟩
        | false =>
          refine ((ih ordered).mp hrest z hz).imp_right ?_
          rintro ⟨y, hy, hit⟩
          exact ⟨y, List.mem_cons_of_mem _ hy, hit⟩
    · intro h
      have tested : Returns (test x) := by
        rcases h x List.mem_cons_self with tested | ⟨y, hy, hbefore, _⟩
        · exact tested
        · rcases List.mem_cons.mp hy with rfl | hy
          · exact absurd hbefore (asymm _ _ hbefore)
          · exact absurd hbefore (asymm _ _ (first y hy))
      obtain ⟨hit, hx⟩ := tested
      refine ⟨hit, hx, ?_⟩
      cases hit with
      | true => exact ok_returns true
      | false =>
        refine (ih ordered).mpr fun z hz => ?_
        refine (h z (List.mem_cons_of_mem _ hz)).imp_right ?_
        rintro ⟨y, hy, hbefore, hit⟩
        rcases List.mem_cons.mp hy with rfl | hy
        · cases hx.symm.trans hit
        · exact ⟨y, hy, hbefore, hit⟩

/-- A loop returns if its steps do, where that does not depend on what came before. -/
theorem foldlM_returns {f : σ → α → Strict σ} {settled : α → Prop}
    (h : ∀ x ∈ xs, ∀ s, Returns (f s x) ↔ settled x) (s : σ) :
    Returns (xs.foldlM f s) ↔ ∀ x ∈ xs, settled x := by
  induction xs generalizing s with
  | nil => simp
  | cons x xs ih =>
    have hrest := ih fun y hy => h y (List.mem_cons_of_mem _ hy)
    rw [List.foldlM_cons, bind_returns, List.forall_mem_cons, ← h x List.mem_cons_self s]
    constructor
    · rintro ⟨t, ht, hloop⟩
      exact ⟨⟨t, ht⟩, (hrest t).mp hloop⟩
    · rintro ⟨⟨t, ht⟩, hloop⟩
      exact ⟨t, ht, (hrest t).mpr hloop⟩

end Lists

end LeastContext.Strict

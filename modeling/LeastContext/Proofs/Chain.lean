import Mathlib.Data.List.Nodup

namespace LeastContext

variable {α : Type} {next : α → Option α} {a b c : α} {xs ys : List α}

/-- The places passed on the way from one place to another one that has no successor. -/
inductive Chain (next : α → Option α) : α → List α → α → Prop where
  | stop {a : α} (last : next a = none) : Chain next a [] a
  | link {a b c : α} {xs : List α} (step : next a = some b) (rest : Chain next b xs c) :
      Chain next a (a :: xs) c

namespace Chain

theorem end_stops (h : Chain next a xs b) : next b = none := by
  induction h with
  | stop last => exact last
  | link _ _ ih => exact ih

theorem unique (h : Chain next a xs b) (h' : Chain next a ys c) : xs = ys ∧ b = c := by
  induction h generalizing ys with
  | stop last =>
    cases h' with
    | stop _ => exact ⟨rfl, rfl⟩
    | link step _ => simp [last] at step
  | link step _ ih =>
    cases h' with
    | stop last => simp [last] at step
    | link step' rest' =>
      obtain rfl := Option.some.inj (step.symm.trans step')
      obtain ⟨rfl, rfl⟩ := ih rest'
      exact ⟨rfl, rfl⟩

/-- A chain that ends does not point at itself. -/
theorem next_ne_self (h : Chain next a xs b) : next a ≠ some a := by
  intro hs
  cases h with
  | stop last => simp [last] at hs
  | link step rest =>
    obtain rfl := Option.some.inj (step.symm.trans hs)
    exact List.cons_ne_self _ _ (rest.unique (.link step rest)).1.symm

theorem suffix (h : Chain next a xs b) (hc : c ∈ xs) :
    ∃ ys, Chain next c ys b ∧ ys.length ≤ xs.length := by
  induction h with
  | stop _ => cases hc
  | link step rest ih =>
    rcases List.mem_cons.mp hc with rfl | hc
    · exact ⟨_, .link step rest, Nat.le_refl _⟩
    · obtain ⟨ys, hd, hl⟩ := ih hc
      exact ⟨ys, hd, Nat.le_trans hl (Nat.le_succ _)⟩

/-- A place passed twice would begin a chain shorter than itself. -/
theorem nodup (h : Chain next a xs b) : xs.Nodup := by
  induction h with
  | stop _ => exact List.nodup_nil
  | link step rest ih =>
    refine List.nodup_cons.mpr ⟨?_, ih⟩
    intro hm
    obtain ⟨ys, hd, hl⟩ := rest.suffix hm
    obtain ⟨rfl, _⟩ := hd.unique (.link step rest)
    simp only [List.length_cons] at hl
    omega

/-- All places of a chain lie in a set that the successors do not leave. -/
theorem closed (h : Chain next a xs b) (inside : α → Prop)
    (step : ∀ x y, inside x → next x = some y → inside y) (ha : inside a) :
    (∀ x ∈ xs, inside x) ∧ inside b := by
  induction h with
  | stop _ => exact ⟨by simp, ha⟩
  | link hs _ ih =>
    obtain ⟨hxs, hb⟩ := ih (step _ _ ha hs)
    refine ⟨?_, hb⟩
    intro x hx
    rcases List.mem_cons.mp hx with rfl | hx
    · exact ha
    · exact hxs x hx

theorem mem_next (h : Chain next a xs b) (hc : c ∈ xs) : ∃ d, next c = some d := by
  induction h with
  | stop _ => cases hc
  | link step _ ih =>
    rcases List.mem_cons.mp hc with rfl | hc
    · exact ⟨_, step⟩
    · exact ih hc

theorem length_le (h : Chain next a xs b) (all : List α)
    (cover : ∀ x y, next x = some y → x ∈ all) : xs.length ≤ all.length := by
  apply List.Nodup.length_le_of_subset h.nodup
  intro x hx
  obtain ⟨y, hy⟩ := h.mem_next hx
  exact cover x y hy

theorem nodup_with_end (h : Chain next a xs b) : (xs ++ [b]).Nodup := by
  refine List.nodup_append.mpr ⟨h.nodup, List.nodup_singleton b, ?_⟩
  intro x hx y hy he
  -- the end is the only place without a successor
  obtain ⟨d, hd⟩ := h.mem_next hx
  rw [he, List.mem_singleton.mp hy, h.end_stops] at hd
  cases hd

theorem length_lt {all : List α} (h : Chain next a xs b)
    (step : ∀ x y, x ∈ all → next x = some y → y ∈ all) (ha : a ∈ all) :
    xs.length < all.length := by
  obtain ⟨hxs, hb⟩ := h.closed (· ∈ all) step ha
  have hsub : xs ++ [b] ⊆ all := by
    refine List.append_subset.mpr ⟨hxs, ?_⟩
    simpa using hb
  have hle := h.nodup_with_end.length_le_of_subset hsub
  simpa [Nat.succ_le_iff] using hle

/-- The place that so many successors lead to, where there are as many. -/
def place (next : α → Option α) : Nat → α → Option α
  | 0, a => some a
  | n + 1, a => (next a).bind (place next n)

/-- The chain comes to some place twice; it does so at once where a place is its own successor. -/
def Loops (next : α → Option α) (a : α) : Prop :=
  ∃ m n b, m < n ∧ place next m a = some b ∧ place next n a = some b

/-- A chain that ends has the places it passes and its end, and no others. -/
theorem place_eq (h : Chain next a xs b) (n : Nat) : place next n a = (xs ++ [b])[n]? := by
  induction h generalizing n with
  | stop last =>
    cases n with
    | zero => rfl
    | succ n => simp [place, last]
  | link step _ ih =>
    cases n with
    | zero => rfl
    | succ n => simpa [place, step] using ih n

theorem place_end (h : Chain next a xs b) : place next xs.length a = some b := by
  rw [h.place_eq, List.getElem?_concat_length]

theorem of_place {n : Nat} (h : place next n a = some b) (last : next b = none) :
    ∃ xs, Chain next a xs b := by
  induction n generalizing a with
  | zero =>
    cases h
    exact ⟨[], .stop last⟩
  | succ n ih =>
    obtain ⟨c, hc, h⟩ := Option.bind_eq_some_iff.mp h
    obtain ⟨xs, rest⟩ := ih h
    exact ⟨a :: xs, .link hc rest⟩

theorem of_place_none {n : Nat} (h : place next n a = none) : ∃ xs b, Chain next a xs b := by
  induction n generalizing a with
  | zero => cases h
  | succ n ih =>
    cases hn : next a with
    | none => exact ⟨[], a, .stop hn⟩
    | some c =>
      rw [place, hn, Option.bind_some] at h
      obtain ⟨xs, b, rest⟩ := ih h
      exact ⟨a :: xs, b, .link hn rest⟩

theorem not_loops (h : Chain next a xs b) : ¬ Loops next a := by
  intro hloops
  obtain ⟨m, n, c, hlt, hm, hn⟩ := hloops
  rw [h.place_eq] at hm hn
  have hinside : m < (xs ++ [b]).length := (List.getElem?_eq_some_iff.mp hm).1
  have heq : m = n := (List.getElem?_inj hinside h.nodup_with_end).mp (hm.trans hn.symm)
  omega

section Finite

variable {all : List α} (step : ∀ x y, x ∈ all → next x = some y → y ∈ all)
include step

theorem place_mem {n : Nat} (ha : a ∈ all) (h : place next n a = some b) : b ∈ all := by
  induction n generalizing a with
  | zero =>
    cases h
    exact ha
  | succ n ih =>
    obtain ⟨c, hc, h⟩ := Option.bind_eq_some_iff.mp h
    exact ih (step a c ha hc) h

/-- Without an end there are places for more steps than there are elements, so two of them are
the same. -/
theorem loops_of_endless (ha : a ∈ all) (endless : ∀ n, ∃ b, place next n a = some b) :
    Loops next a := by
  by_contra hloops
  choose walk hwalk using endless
  have hnodup : ((List.range (all.length + 1)).map walk).Nodup := by
    refine List.Nodup.map_on ?_ List.nodup_range
    intro m _ n _ he
    by_contra hne
    rcases Nat.lt_or_gt_of_ne hne with hlt | hlt
    · exact hloops ⟨m, n, walk m, hlt, hwalk m, he ▸ hwalk n⟩
    · exact hloops ⟨n, m, walk n, hlt, hwalk n, he ▸ hwalk m⟩
  have hsub : (List.range (all.length + 1)).map walk ⊆ all := by
    intro x hx
    obtain ⟨n, _, rfl⟩ := List.mem_map.mp hx
    exact place_mem step ha (hwalk n)
  have hle := hnodup.length_le_of_subset hsub
  simp only [List.length_map, List.length_range] at hle
  omega

theorem ends_or_loops (ha : a ∈ all) : (∃ xs b, Chain next a xs b) ∨ Loops next a := by
  by_cases hends : ∃ n, place next n a = none
  · obtain ⟨n, hn⟩ := hends
    exact .inl (of_place_none hn)
  · refine .inr (loops_of_endless step ha ?_)
    intro n
    exact Option.ne_none_iff_exists'.mp fun hn => hends ⟨n, hn⟩

end Finite

end Chain

end LeastContext

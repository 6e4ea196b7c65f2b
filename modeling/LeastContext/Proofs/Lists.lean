import Mathlib.Data.List.Basic
import Mathlib.Data.List.Forall2
import Mathlib.Data.Set.Card

namespace LeastContext

variable {α β γ δ : Type}

section Deduplication

variable [DecidableEq α]

theorem eraseDups_concat (xs : List α) (last : α) : (xs ++ [last]).eraseDups =
    if last ∈ xs then xs.eraseDups else xs.eraseDups ++ [last] := by
  rw [List.eraseDups_append]
  by_cases h : last ∈ xs <;> simp [h, List.removeAll, List.eraseDups_cons]

theorem eraseDups_nodup (xs : List α) : xs.eraseDups.Nodup := by
  induction xs using List.reverseRecOn with
  | nil => exact .nil
  | append_singleton xs last ih =>
    rw [eraseDups_concat]
    split
    · exact ih
    · rename_i hnew
      refine List.nodup_append.mpr ⟨ih, List.nodup_singleton _, ?_⟩
      rintro a ha _ hlast rfl
      rw [List.mem_singleton.mp hlast] at ha
      exact hnew (List.mem_eraseDups.mp ha)

theorem eraseDups_map [DecidableEq β] {f : α → β}
    (injective : Function.Injective f) (xs : List α) :
    (xs.map f).eraseDups = xs.eraseDups.map f := by
  induction xs using List.reverseRecOn with
  | nil => rfl
  | append_singleton xs last ih =>
    rw [List.map_append, List.map_singleton, eraseDups_concat, eraseDups_concat, ih]
    by_cases hlast : last ∈ xs
    · rw [if_pos hlast, if_pos (List.mem_map_of_mem hlast)]
    · have hlast' : f last ∉ xs.map f := mt (List.mem_map_of_injective injective).mp hlast
      rw [if_neg hlast, if_neg hlast', List.map_append, List.map_singleton]

theorem ncard_eraseDups (xs : List α) :
    xs.eraseDups.length = {x | x ∈ xs}.ncard := by
  match xs with
  | [] => simp
  | x :: xs =>
    have split : {y | y ∈ x :: xs} = Insert.insert x {y | y ∈ xs.filter fun y => !y == x} := by
      ext y
      by_cases he : y = x <;> simp [he]
    have finite := List.finite_toSet (xs.filter fun y => !y == x)
    rw [split, Set.ncard_insert_of_notMem (by simp) finite, ← ncard_eraseDups,
      List.eraseDups_cons, List.length_cons]
termination_by xs.length
decreasing_by exact Nat.lt_succ_of_le (List.length_filter_le _ _)

/-- Of things with ascending places, each taken once, an earlier one has a place before all places
of a later one. -/
theorem eraseDups_first {placed : List (List Nat × α)} (ascending : placed.Pairwise (·.1 < ·.1)) :
    (placed.map (·.2)).eraseDups.Pairwise fun a b =>
      ∃ place, (place, a) ∈ placed ∧ ∀ other, (other, b) ∈ placed → place < other := by
  induction placed using List.reverseRecOn with
  | nil => exact .nil
  | append_singleton placed last ih =>
    obtain ⟨lastPlace, last⟩ := last
    obtain ⟨hplaced, _, hlater⟩ := List.pairwise_append.mp ascending
    have before : ∀ place a, (place, a) ∈ placed → place < lastPlace := by
      intro place a ha
      exact hlater _ ha _ (List.mem_singleton_self _)
    -- an occurrence at the end comes after every place there was
    have kept : (placed.map (·.2)).eraseDups.Pairwise fun a b =>
        ∃ place, (place, a) ∈ placed ++ [(lastPlace, last)] ∧
          ∀ other, (other, b) ∈ placed ++ [(lastPlace, last)] → place < other := by
      refine (ih hplaced).imp ?_
      rintro a b ⟨place, ha, hfirst⟩
      refine ⟨place, List.mem_append_left _ ha, ?_⟩
      intro other hb
      rcases List.mem_append.mp hb with hb | hb
      · exact hfirst other hb
      · cases List.mem_singleton.mp hb
        exact before place a ha
    rw [List.map_append, List.map_singleton, eraseDups_concat]
    split
    · exact kept
    · rename_i hnew
      refine List.pairwise_append.mpr ⟨kept, List.pairwise_singleton _ _, ?_⟩
      intro a ha b hb
      cases List.mem_singleton.mp hb
      obtain ⟨⟨place, _⟩, hplace, rfl⟩ := List.mem_map.mp (List.mem_eraseDups.mp ha)
      refine ⟨place, List.mem_append_left _ hplace, ?_⟩
      intro other hb
      rcases List.mem_append.mp hb with hb | hb
      · exact absurd (List.mem_map.mpr ⟨_, hb, rfl⟩) hnew
      · cases List.mem_singleton.mp hb
        exact before place _ hplace

end Deduplication

/-- Functions that tell the same things apart take as many values. -/
theorem length_eraseDups_map [DecidableEq β] [DecidableEq γ] {f : α → β} {g : α → γ}
    {xs ys : List α} (perm : xs.Perm ys)
    (same : ∀ a ∈ xs, ∀ b ∈ xs, f a = f b ↔ g a = g b) :
    (xs.map f).eraseDups.length = (ys.map g).eraseDups.length := by
  have hperm : (ys.map g).eraseDups.length = (xs.map g).eraseDups.length := by
    have hmem : ∀ c, c ∈ ys.map g ↔ c ∈ xs.map g := fun c => (perm.map g).mem_iff.symm
    simp only [ncard_eraseDups, hmem]
  rw [hperm]
  clear perm hperm
  induction xs using List.reverseRecOn with
  | nil => rfl
  | append_singleton xs last ih =>
    have hrest := ih fun a ha b hb =>
      same a (List.mem_append_left _ ha) b (List.mem_append_left _ hb)
    have hold : f last ∈ xs.map f ↔ g last ∈ xs.map g := by
      simp only [List.mem_map]
      refine exists_congr fun a => and_congr_right fun ha => ?_
      exact same a (List.mem_append_left _ ha) last (by simp)
    rw [List.map_append, List.map_append, List.map_singleton, List.map_singleton,
      eraseDups_concat, eraseDups_concat]
    by_cases h : f last ∈ xs.map f
    · rw [if_pos h, if_pos (hold.mp h), hrest]
    · rw [if_neg h, if_neg (mt hold.mpr h), List.length_append, List.length_append, hrest]
      rfl

section Keys

variable {xs ys : List α}

theorem length_filter_lt (keep : α → Bool) (x : α) (xs : List α) :
    (xs.filter keep).length < (x :: xs).length :=
  Nat.lt_succ_of_le (List.length_filter_le keep xs)

theorem eraseDupsBy_sublist (r : α → α → Bool) (xs : List α) : (xs.eraseDupsBy r).Sublist xs := by
  induction hlength : xs.length using Nat.strongRecOn generalizing xs with
  | ind n ih =>
    cases xs with
    | nil => exact .slnil
    | cons x xs =>
      have hless := hlength ▸ length_filter_lt (fun b => decide (r b x = false)) x xs
      rw [List.eraseDupsBy_cons]
      exact ((ih _ hless _ rfl).trans List.filter_sublist).cons_cons x

/-- Keeping one of each key keeps each key, and keeps it once. -/
theorem eraseDupsBy_keys [DecidableEq β] (f : α → β) (xs : List α) :
    ((xs.eraseDupsBy fun a b => f a = f b).map f).Nodup ∧
      ∀ key, key ∈ (xs.eraseDupsBy fun a b => f a = f b).map f ↔ key ∈ xs.map f := by
  induction hlength : xs.length using Nat.strongRecOn generalizing xs with
  | ind n ih =>
    cases xs with
    | nil => simp
    | cons x xs =>
      have hless := hlength ▸
        length_filter_lt (fun b => decide (decide (f b = f x) = false)) x xs
      obtain ⟨hnodup, hkeys⟩ := ih _ hless _ rfl
      have hrest : ∀ key, key ∈ (xs.filter fun b => decide (f b = f x) = false).map f ↔
          key ∈ xs.map f ∧ key ≠ f x := by
        intro key
        simp only [List.mem_map, List.mem_filter, decide_eq_true_eq, decide_eq_false_iff_not]
        constructor
        · intro h
          obtain ⟨b, ⟨hb, hne⟩, rfl⟩ := h
          exact ⟨⟨b, hb, rfl⟩, hne⟩
        · intro h
          obtain ⟨⟨b, hb, rfl⟩, hne⟩ := h
          exact ⟨b, ⟨hb, hne⟩, rfl⟩
      rw [List.eraseDupsBy_cons, List.map_cons]
      constructor
      · refine List.nodup_cons.mpr ⟨?_, hnodup⟩
        rw [hkeys, hrest]
        exact fun h => h.2 rfl
      · intro key
        rw [List.mem_cons, hkeys, hrest, List.map_cons, List.mem_cons]
        by_cases hkey : key = f x <;> simp [hkey]

/-- Among things with keys of their own, the order does not matter for a look-up. -/
theorem find?_perm [DecidableEq β] {key : α → β} (perm : xs.Perm ys)
    (distinct : (xs.map key).Nodup) (k : β) :
    xs.find? (key · = k) = ys.find? (key · = k) := by
  induction perm with
  | nil => rfl
  | cons x _ ih =>
    rw [List.find?_cons, List.find?_cons, ih (List.nodup_cons.mp distinct).2]
  | swap x y xs =>
    have hne : key y ≠ key x := by
      intro he
      simp [he] at distinct
    by_cases hx : key x = k <;> by_cases hy : key y = k <;> simp_all
  | trans first _ ih ih' =>
    rw [ih distinct, ih' ((first.map key).nodup_iff.mp distinct)]

end Keys

/-- Lists of things with their places one after the other, every place led by the position of its
list, counted from a number on. -/
def placesFrom {α : Type} : Nat → List (List (List Nat × α)) → List (List Nat × α)
  | _, [] => []
  | i, list :: lists => list.map (fun x => (i :: x.1, x.2)) ++ placesFrom (i + 1) lists

section Places

variable {lists : List (List (List Nat × α))} {start : Nat}

theorem mem_placesFrom {place : List Nat} {x : α} : (place, x) ∈ placesFrom start lists ↔
    ∃ i rest list, place = (start + i) :: rest ∧ lists[i]? = some list ∧ (rest, x) ∈ list := by
  induction lists generalizing start with
  | nil => simp [placesFrom]
  | cons first lists ih =>
    rw [placesFrom, List.mem_append, ih]
    constructor
    · intro h
      rcases h with h | ⟨i, rest, list, rfl, hlist, hmem⟩
      · obtain ⟨⟨rest, y⟩, hmem, he⟩ := List.mem_map.mp h
        cases he
        exact ⟨0, rest, first, rfl, rfl, hmem⟩
      · exact ⟨i + 1, rest, list, by rw [Nat.add_right_comm, Nat.add_assoc], hlist, hmem⟩
    · intro h
      obtain ⟨i, rest, list, rfl, hlist, hmem⟩ := h
      cases i with
      | zero =>
        cases hlist
        exact .inl (List.mem_map.mpr ⟨(rest, x), hmem, rfl⟩)
      | succ i =>
        exact .inr ⟨i, rest, list, by rw [Nat.add_right_comm, Nat.add_assoc], hlist, hmem⟩

/-- Places that ascend in every list ascend throughout. -/
theorem placesFrom_ascending (h : ∀ list ∈ lists, list.Pairwise (·.1 < ·.1)) :
    (placesFrom start lists).Pairwise (·.1 < ·.1) := by
  induction lists generalizing start with
  | nil => exact .nil
  | cons first lists ih =>
    refine List.pairwise_append.mpr ⟨?_, ih fun list hl => h list (List.mem_cons_of_mem _ hl), ?_⟩
    · refine List.pairwise_map.mpr ((h first List.mem_cons_self).imp ?_)
      intro a b hlt
      exact List.cons_lt_cons_iff.mpr (.inr ⟨rfl, hlt⟩)
    · intro a ha b hb
      obtain ⟨⟨place, x⟩, _, rfl⟩ := List.mem_map.mp ha
      obtain ⟨i, rest, _, hplace, _, _⟩ := mem_placesFrom.mp hb
      rw [hplace]
      exact List.cons_lt_cons_iff.mpr (.inl (by omega))

theorem map_placesFrom :
    (placesFrom start lists).map (·.2) = lists.flatMap fun list => list.map (·.2) := by
  induction lists generalizing start with
  | nil => rfl
  | cons first lists ih =>
    rw [placesFrom, List.map_append, List.map_map, ih]
    rfl

end Places

section Sorting

variable {le : α → α → Bool} {R : α → α → Prop} {xs : List α}

/-- Sorting is stable: things that are not apart in the order stay as they were. -/
theorem mergeSort_stable (trans : ∀ a b c, le a b = true → le b c = true → le a c = true)
    (total : ∀ a b, (le a b || le b a) = true) (h : xs.Pairwise R) :
    (xs.mergeSort le).Pairwise fun a b => le a b = true ∧ (le b a = true → R a b) := by
  induction xs with
  | nil => simp
  | cons x xs ih =>
    obtain ⟨hx, hxs⟩ := List.pairwise_cons.mp h
    obtain ⟨before, after, hsplit, hrest, hbefore⟩ := List.mergeSort_cons trans total x xs
    have sorted := List.pairwise_mergeSort trans total (x :: xs)
    have stable := ih hxs
    rw [hsplit] at sorted ⊢
    rw [hrest] at stable
    obtain ⟨sbefore, safter, sacross⟩ := List.pairwise_append.mp stable
    obtain ⟨_, smiddle, _⟩ := List.pairwise_append.mp sorted
    have hmem : ∀ y ∈ after, y ∈ xs := by
      intro y hy
      have : y ∈ xs.mergeSort le := by simp [hrest, hy]
      simpa using this
    refine List.pairwise_append.mpr ⟨sbefore, List.pairwise_cons.mpr ⟨?_, safter⟩, ?_⟩
    · intro y hy
      exact ⟨(List.pairwise_cons.mp smiddle).1 y hy, fun _ => hx y (hmem y hy)⟩
    · intro y hy z hz
      rcases List.mem_cons.mp hz with rfl | hz
      · -- what stands before `z` now stood behind it, so it is strictly less
        have hlt : le z y = false := by simpa using hbefore y hy
        have hle : le y z = true := by simpa [hlt] using total z y
        exact ⟨hle, fun h => by simp [hlt] at h⟩
      · exact sacross y hy z hz

/-- A stable order of things that stood in a strict order leaves no choice. -/
theorem mergeSort_filter (trans : ∀ a b c, le a b = true → le b c = true → le a c = true)
    (total : ∀ a b, (le a b || le b a) = true) (asymm : ∀ a b, R a b → ¬ R b a)
    (h : xs.Pairwise R) (keep : α → Bool) :
    (xs.filter keep).mergeSort le = (xs.mergeSort le).filter keep := by
  have first := mergeSort_stable trans total (h.filter keep)
  have second := (mergeSort_stable trans total h).filter keep
  refine List.Perm.eq_of_pairwise ?_ first second ?_
  · intro a b _ _ hab hba
    exact absurd (hba.2 hab.1) (asymm a b (hab.2 hba.1))
  · exact (List.mergeSort_perm _ _).trans ((List.mergeSort_perm xs le).symm.filter keep)

end Sorting

section FlatMaps

variable {xs : List α}

theorem flatMap_filter_ne [DecidableEq α] {f : α → List β} {a : α} (h : f a = [])
    (xs : List α) : (xs.filter (· ≠ a)).flatMap f = xs.flatMap f := by
  induction xs with
  | nil => rfl
  | cons x xs ih =>
    by_cases hx : x = a
    · subst hx
      simpa [h] using ih
    · simpa [hx] using ih

/-- A flattened list has one element exactly if all parts but one are empty. -/
theorem flatMap_eq_singleton {f : α → List β} {y : β} :
    xs.flatMap f = [y] ↔ ∃ before x after, xs = before ++ x :: after ∧ f x = [y] ∧
      ∀ other ∈ before ++ after, f other = [] := by
  constructor
  · intro h
    induction xs with
    | nil => cases h
    | cons x xs ih =>
      rw [List.flatMap_cons, List.append_eq_singleton_iff] at h
      rcases h with ⟨hempty, hrest⟩ | ⟨hone, hrest⟩
      · obtain ⟨before, z, after, rfl, hz, hothers⟩ := ih hrest
        exact ⟨x :: before, z, after, rfl, hz, by simpa [hempty] using hothers⟩
      · exact ⟨[], x, xs, rfl, hone, by simpa using hrest⟩
  · intro h
    obtain ⟨before, x, after, rfl, hx, hothers⟩ := h
    have hbefore : before.flatMap f = [] :=
      List.flatMap_eq_nil_iff.mpr fun z hz => hothers z (List.mem_append_left _ hz)
    have hafter : after.flatMap f = [] :=
      List.flatMap_eq_nil_iff.mpr fun z hz => hothers z (List.mem_append_right _ hz)
    simp [hx, hbefore, hafter]

/-- The first element with a property is the head, or it is found in the tail. -/
theorem exists_first_cons {x : α} {here passed : α → Prop} :
    (∃ above below y, x :: xs = above ++ y :: below ∧ here y ∧ ∀ z ∈ above, passed z) ↔
      here x ∨ passed x ∧
        ∃ above below y, xs = above ++ y :: below ∧ here y ∧ ∀ z ∈ above, passed z := by
  constructor
  · intro h
    obtain ⟨above, below, y, he, hy, hpassed⟩ := h
    cases above with
    | nil =>
      cases he
      exact .inl hy
    | cons z above =>
      obtain ⟨rfl, hrest⟩ := List.cons.inj he
      obtain ⟨hx, hpassed⟩ := List.forall_mem_cons.mp hpassed
      exact .inr ⟨hx, above, below, y, hrest, hy, hpassed⟩
  · rintro (hx | ⟨hx, above, below, y, rfl, hy, hpassed⟩)
    · exact ⟨[], xs, x, rfl, hx, nofun⟩
    · exact ⟨x :: above, below, y, rfl, hy, List.forall_mem_cons.mpr ⟨hx, hpassed⟩⟩

theorem mapIdx_map (f : α → β) (g : Nat → β → γ) (xs : List α) :
    (xs.map f).mapIdx g = xs.mapIdx fun i a => g i (f a) := by
  apply List.ext_getElem?
  intro i
  simp [Function.comp_def]

theorem flatten_mapIdx {f : α → β} {g : Nat → α → List γ} {g' : Nat → β → List δ}
    {k : γ → δ} (same : ∀ i x, g' i (f x) = (g i x).map k) (xs : List α) :
    ((xs.map f).mapIdx g').flatten = (xs.mapIdx g).flatten.map k := by
  rw [mapIdx_map, List.map_flatten]
  congr 1
  apply List.ext_getElem?
  intro i
  simp [same, Function.comp_def]

theorem mapM_map_eq_some {f : β → Option γ} {g : α → γ} {k : α → β}
    (h : ∀ x ∈ xs, f (k x) = some (g x)) : (xs.map k).mapM f = some (xs.map g) := by
  induction xs with
  | nil => rfl
  | cons x xs ih =>
    obtain ⟨hx, hxs⟩ := List.forall_mem_cons.mp h
    rw [List.map_cons, List.mapM_cons, hx, ih hxs]
    rfl

theorem anyM_map (f : α → β) (test : β → Option Bool) (xs : List α) :
    (xs.map f).anyM test = xs.anyM fun x => test (f x) := by
  induction xs with
  | nil => rfl
  | cons x xs ih => rw [List.map_cons, List.anyM_cons, List.anyM_cons, ih]

end FlatMaps

section Pairs

variable {R : α → β → Prop} {xs : List α} {ys : List β}

theorem exists_of_forall₂
    (h : List.Forall₂ R xs ys) {y : β} (hy : y ∈ ys) : ∃ x ∈ xs, R x y := by
  induction h with
  | nil => cases hy
  | cons hfirst _ ih =>
    rcases List.mem_cons.mp hy with rfl | hy
    · exact ⟨_, List.mem_cons_self, hfirst⟩
    · obtain ⟨x, hx, hr⟩ := ih hy
      exact ⟨x, List.mem_cons_of_mem _ hx, hr⟩

theorem forall₂_of_append {xs' : List α} {ys' : List β}
    (hlength : xs.length = ys.length) (h : List.Forall₂ R (xs ++ xs') (ys ++ ys')) :
    List.Forall₂ R xs ys ∧ List.Forall₂ R xs' ys' := by
  have hfirst := List.forall₂_take_append _ _ _ h
  have hsecond := List.forall₂_drop_append _ _ _ h
  rw [← hlength] at hfirst hsecond
  simpa using And.intro hfirst hsecond

theorem flatMap_eq_of_forall₂ {f : α → List γ} {g : β → List γ}
    (h : List.Forall₂ (fun x y => g y = f x) xs ys) : ys.flatMap g = xs.flatMap f := by
  induction h with
  | nil => rfl
  | cons hfirst _ hrest => rw [List.flatMap_cons, List.flatMap_cons, hfirst, hrest]

theorem mapIdx_eq_of_forall₂ {f : Nat → α → γ} {g : Nat → β → γ}
    (h : List.Forall₂ R xs ys)
    (same : ∀ i x y, R x y → g i y = f i x) : ys.mapIdx g = xs.mapIdx f := by
  induction h generalizing f g with
  | nil => rfl
  | cons hfirst _ ih =>
    rw [List.mapIdx_cons, List.mapIdx_cons, same 0 _ _ hfirst, ih fun i => same (i + 1)]

end Pairs

end LeastContext

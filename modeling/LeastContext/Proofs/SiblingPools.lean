import LeastContext.Proofs.AnalysisHistory
import LeastContext.Proofs.Implementations
import LeastContext.Proofs.MethodSets
import LeastContext.Proofs.Strict.Pooling
import Mathlib.Algebra.BigOperators.Group.List.Basic

namespace LeastContext

namespace History

/-- Records have been shared and nothing else was done. -/
def OnlyShares (ops : History) : Prop :=
  ∀ op ∈ ops, ∃ a b, op = .share a b

variable {ops past : History}

theorem OnlyShares.not_track (h : OnlyShares ops) : ∀ op ∈ ops, ∀ object, op ≠ .track object := by
  intro op hop object he
  obtain ⟨a, b, rfl⟩ := h op hop
  cases he

theorem OnlyShares.issued (h : OnlyShares ops) :
    History.issued (ops ++ past) = History.issued past :=
  issued_append h.not_track

theorem OnlyShares.tracks (h : OnlyShares ops) {object : ObjectId} :
    History.tracks (ops ++ past) object = true ↔ History.tracks past object = true := by
  rw [tracks_append h.not_track]
  refine and_iff_left ?_
  intro hm
  obtain ⟨a, b, he⟩ := h _ hm
  cases he

theorem OnlyShares.newest (h : OnlyShares ops) {object : ObjectId} {v : VarId} :
    Newest (ops ++ past) object v ↔ Newest past object v := by
  rw [Newest, Newest, h.issued]

theorem OnlyShares.current (h : OnlyShares ops) {v : VarId} :
    Current (ops ++ past) v ↔ Current past v := by
  simp only [Current, h.newest, h.tracks]

variable {ledger ledger' : Ledger}

theorem LeadsTo.shared_has_iff (h : past.LeadsTo ledger) (hs : OnlyShares ops)
    (h' : LeadsTo (ops ++ past) ledger') {v : VarId} : ledger'.Has v ↔ ledger.Has v := by
  rw [h'.follows.has_iff, h.follows.has_iff, Issued, Issued, hs.issued]

/-- Sharing keeps what is tracked. -/
theorem LeadsTo.shared_lookup (h : past.LeadsTo ledger) (hs : OnlyShares ops)
    (h' : LeadsTo (ops ++ past) ledger') (object : ObjectId) :
    ledger'.lookup object = ledger.lookup object := by
  refine Option.ext fun v => ?_
  rw [h'.follows.lookup_iff, h.follows.lookup_iff, hs.newest, hs.tracks]

/-- Sharing keeps the variables, and which of them are tracked. -/
theorem LeadsTo.shared_frame (h : past.LeadsTo ledger) (hs : OnlyShares ops)
    (h' : LeadsTo (ops ++ past) ledger') (v : VarId) :
    (ledger'.variableAt v).object = (ledger.variableAt v).object ∧
      (ledger'.variableAt v).active = (ledger.variableAt v).active := by
  have hiff : ledger'.Has v ↔ ledger.Has v := h.shared_has_iff hs h'
  by_cases hv : ledger.Has v
  · have hv' := hiff.mpr hv
    constructor
    · have hobject := h'.follows.object v hv'
      rw [hs.issued, h.follows.object v hv] at hobject
      exact (Option.some.inj hobject).symm
    · rw [Bool.eq_iff_iff, h'.follows.active v hv', h.follows.active v hv, hs.current]
  · have hout : ∀ l : Ledger, ¬ l.Has v → l.variableAt v = default := by
      intro l hl
      exact dif_neg hl
    rw [hout ledger hv, hout ledger' fun hv' => hv (hiff.mp hv')]
    exact ⟨rfl, rfl⟩

/-- Where nothing was inserted, records are empty. -/
theorem LeadsTo.usage_empty (h : past.LeadsTo ledger) (unused : ∀ v use, .insert v use ∉ past)
    {v : VarId} (hv : ledger.Has v) : ledger.usage v = .empty := by
  apply Usage.eq_empty
  intro use hheld
  obtain ⟨w, _, _, hm⟩ := (h.follows.holds v hv use).mp hheld
  exact unused w use hm

end History

open History Strict

/-- Two variables stand under one key. -/
def Paired (entries : List (MethodKey × VarId)) (v w : VarId) : Prop :=
  ∃ key, (key, v) ∈ entries ∧ (key, w) ∈ entries

theorem Paired.more {entries : List (MethodKey × VarId)} {v w : VarId} (h : Paired entries v w)
    (more : List (MethodKey × VarId)) : Paired (entries ++ more) v w := by
  obtain ⟨key, hv, hw⟩ := h
  exact ⟨key, List.mem_append_left _ hv, List.mem_append_left _ hw⟩

/-- How many entries come after the first one of their key. -/
def followers (keys : List MethodKey) (entries : List (MethodKey × VarId)) : Nat :=
  (keys.map fun key => entries.countP (·.1 = key) - 1).sum

@[simp]
theorem followers_nil (keys : List MethodKey) : followers keys [] = 0 := by
  simp [followers]

theorem followers_append {keys : List MethodKey} (distinct : keys.Nodup) {key : MethodKey}
    (hkey : key ∈ keys) (entries : List (MethodKey × VarId)) (v : VarId) :
    followers keys (entries ++ [(key, v)]) =
      followers keys entries + min 1 (entries.countP (·.1 = key)) := by
  have each : ∀ k, (entries ++ [(key, v)]).countP (·.1 = k) - 1 =
      entries.countP (·.1 = k) - 1 +
        if k = key then min 1 (entries.countP (·.1 = k)) else 0 := by
    intro k
    rw [List.countP_append, List.countP_singleton]
    by_cases hk : k = key
    · simp only [hk, decide_true, if_true]
      omega
    · simp [hk, Ne.symm hk]
  have one : (keys.map fun k =>
      if k = key then min 1 (entries.countP (·.1 = k)) else 0).sum =
        min 1 (entries.countP (·.1 = key)) := by
    rw [List.sum_map_eq_nsmul_single key _ fun k hk _ => if_neg hk,
      List.count_eq_one_of_mem distinct hkey]
    simp
  simp only [followers, each, List.sum_map_add, one]

/-- Pooling has gone through some entries, and has shared records along the way. -/
structure Gathered (keys : List MethodKey) (before : Nat) (past shares : History)
    (done : List (MethodKey × VarId)) (pool : Pool) : Prop where
  issued : ∀ entry ∈ done, Issued past entry.2
  leads : History.LeadsTo (shares ++ past) pool.ledger
  paired : ∀ op ∈ shares, ∃ a b, op = .share a b ∧ Paired done a b
  firsts : ∀ key first, pool.firsts.lookup key = some first → (key, first) ∈ done
  joins : ∀ key v, (key, v) ∈ done → ∃ first, pool.firsts.lookup key = some first ∧
    (first = v ∨ .share first v ∈ shares)
  joined : pool.joined = before + followers keys done

namespace Gathered

variable {keys : List MethodKey} {before : Nat} {past shares : History}
  {done : List (MethodKey × VarId)} {pool : Pool} {key : MethodKey} {v first : VarId}

theorem onlyShares (h : Gathered keys before past shares done pool) : OnlyShares shares := by
  intro op hop
  obtain ⟨a, b, he, _⟩ := h.paired op hop
  exact ⟨a, b, he⟩

theorem has (h : Gathered keys before past shares done pool) (hv : Issued past v) :
    pool.ledger.Has v := by
  rw [h.leads.follows.has_iff, Issued, h.onlyShares.issued]
  exact hv

theorem issued_append (h : Gathered keys before past shares done pool) (hv : Issued past v) :
    ∀ entry ∈ done ++ [(key, v)], Issued past entry.2 := by
  intro entry he
  rcases List.mem_append.mp he with he | he
  · exact h.issued entry he
  · rw [List.mem_singleton.mp he]
    exact hv

/-- The parameter met first under a key opens its group. -/
theorem opens (h : Gathered keys before past shares done pool) (distinct : keys.Nodup)
    (hkey : key ∈ keys) (hv : Issued past v) (hl : pool.firsts.lookup key = none) :
    Gathered keys before past shares (done ++ [(key, v)])
      { pool with firsts := pool.firsts ++ [(key, v)] } where
  issued := h.issued_append hv
  leads := h.leads
  paired := by
    intro op hop
    obtain ⟨a, b, he, hp⟩ := h.paired op hop
    exact ⟨a, b, he, hp.more _⟩
  firsts := by
    intro k first hf
    rw [List.lookup_append, Option.or_eq_some_iff] at hf
    rcases hf with hf | ⟨_, hf⟩
    · exact List.mem_append_left _ (h.firsts k first hf)
    · rw [List.lookup_cons] at hf
      split at hf
      · rename_i hk
        cases hf
        simp [eq_of_beq hk]
      · cases hf
  joins := by
    intro k w hm
    rcases List.mem_append.mp hm with hm | hm
    · obtain ⟨first, hf, hj⟩ := h.joins k w hm
      exact ⟨first, by simp [List.lookup_append, hf], hj⟩
    · cases List.mem_singleton.mp hm
      exact ⟨v, by simp [List.lookup_append, hl], .inl rfl⟩
  joined := by
    have none : done.countP (·.1 = key) = 0 := by
      rw [List.countP_eq_zero]
      intro entry hm hk
      obtain ⟨k, w⟩ := entry
      obtain rfl := of_decide_eq_true hk
      obtain ⟨first, hf, _⟩ := h.joins k w hm
      rw [hl] at hf
      cases hf
    rw [followers_append distinct hkey, none]
    exact h.joined

/-- A later parameter joins the first one. -/
theorem follows (h : Gathered keys before past shares done pool) (distinct : keys.Nodup)
    (hkey : key ∈ keys) (hv : Issued past v) (hl : pool.firsts.lookup key = some first) :
    Gathered keys before past (.share first v :: shares) (done ++ [(key, v)])
      { pool with ledger := pool.ledger.share first v, joined := pool.joined + 1 } where
  issued := h.issued_append hv
  leads := by
    refine h.leads.perform (.share first v) ?_
    intro w hw
    simp only [Operation.arguments, List.mem_cons, List.not_mem_nil, or_false] at hw
    rcases hw with rfl | rfl
    · exact h.has (h.issued _ (h.firsts key w hl))
    · exact h.has hv
  paired := by
    intro op hop
    rcases List.mem_cons.mp hop with rfl | hop
    · exact ⟨first, v, rfl, key, List.mem_append_left _ (h.firsts key first hl), by simp⟩
    · obtain ⟨a, b, he, hp⟩ := h.paired op hop
      exact ⟨a, b, he, hp.more _⟩
  firsts := by
    intro k other hf
    exact List.mem_append_left _ (h.firsts k other hf)
  joins := by
    intro k w hm
    rcases List.mem_append.mp hm with hm | hm
    · obtain ⟨other, hf, hj⟩ := h.joins k w hm
      exact ⟨other, hf, hj.imp_right (List.mem_cons_of_mem _)⟩
    · cases List.mem_singleton.mp hm
      exact ⟨first, hl, .inr List.mem_cons_self⟩
  joined := by
    have some : 0 < done.countP (·.1 = key) :=
      List.countP_pos_iff.mpr ⟨_, h.firsts key first hl, by simp⟩
    rw [followers_append distinct hkey, Nat.min_eq_left some, ← Nat.add_assoc, ← h.joined]

theorem add (h : Gathered keys before past shares done pool) (distinct : keys.Nodup)
    {entry : MethodKey × VarId} (hkey : entry.1 ∈ keys) (hv : Issued past entry.2) :
    ∃ shares', Gathered keys before past shares' (done ++ [entry]) (pool.add entry) := by
  obtain ⟨key, v⟩ := entry
  cases hl : pool.firsts.lookup key with
  | none =>
    refine ⟨shares, ?_⟩
    simp only [Pool.add, hl]
    exact h.opens distinct hkey hv hl
  | some first =>
    refine ⟨.share first v :: shares, ?_⟩
    simp only [Pool.add, hl]
    exact h.follows distinct hkey hv hl

theorem addAll (h : Gathered keys before past shares done pool) (distinct : keys.Nodup)
    {entries : List (MethodKey × VarId)} (given : ∀ entry ∈ entries, entry.1 ∈ keys)
    (known : ∀ entry ∈ entries, Issued past entry.2) :
    ∃ shares', Gathered keys before past shares' (done ++ entries)
      (entries.foldl Pool.add pool) := by
  induction entries generalizing done pool shares with
  | nil => exact ⟨shares, by simpa using h⟩
  | cons entry entries ih =>
    obtain ⟨shares', hone⟩ :=
      h.add distinct (given entry List.mem_cons_self) (known entry List.mem_cons_self)
    have hrest := ih hone (fun other ho => given other (List.mem_cons_of_mem _ ho))
      fun other ho => known other (List.mem_cons_of_mem _ ho)
    simpa using hrest

/-- The shares connect what stands under one key. -/
theorem connects (h : Gathered keys before past shares done pool) {w : VarId}
    (hp : Paired done v w) : Connected shares v w := by
  obtain ⟨key, hv, hw⟩ := hp
  obtain ⟨first, hf, hfv⟩ := h.joins key v hv
  obtain ⟨other, ho, hfw⟩ := h.joins key w hw
  cases hf.symm.trans ho
  have fromFirst : ∀ u, first = u ∨ .share first u ∈ shares → Connected shares first u := by
    intro u hu
    rcases hu with rfl | hu
    · exact .refl _
    · exact .rel _ _ hu
  exact .trans _ _ _ (.symm _ _ (fromFirst v hfv)) (fromFirst w hfw)

end Gathered

namespace Program

variable {p : Program} {ledger : Ledger} {interface : TypeId} {past shares : History}

theorem mem_siblings {entry : MethodKey × VarId} (h : entry ∈ p.siblings ledger interface) :
    entry.1 ∈ (p.interfaceMethods interface).map (·.key) ∧ ledger.Has entry.2 := by
  rw [siblings_def] at h
  obtain ⟨group, _, hdecl⟩ := List.mem_flatMap.mp h
  obtain ⟨decl, _, hparam⟩ := List.mem_filterMap.mp hdecl
  obtain ⟨_, hkey, _, _, object, _, _, _, hlookup⟩ := pooledParam?_eq_some.mp hparam
  exact ⟨hkey, (Ledger.lookup_some hlookup).1⟩

theorem siblings_congr {ledger' : Ledger}
    (h : ∀ object, ledger'.lookup object = ledger.lookup object) (interface : TypeId) :
    p.siblings ledger' interface = p.siblings ledger interface := by
  have same : p.pooledParam? ledger' = p.pooledParam? ledger := by
    funext keys decl
    simp only [pooledParam?_def, h]
  simp only [siblings_def, same]

/-- How many siblings of an interface join another one. -/
def siblingFollowers (p : Program) (ledger : Ledger) (interface : TypeId) : Nat :=
  followers ((p.interfaceMethods interface).map (·.key)) (p.siblings ledger interface)

/-- Pooling has gone through some interfaces, and has shared records along the way. -/
structure Pooled (p : Program) (ledger : Ledger) (past shares : History)
    (interfaces : List TypeId) (pool : Pool) : Prop where
  leads : History.LeadsTo (shares ++ past) pool.ledger
  paired : ∀ op ∈ shares, ∃ a b, op = .share a b ∧
    ∃ interface ∈ interfaces, Paired (p.siblings ledger interface) a b
  connects : ∀ interface ∈ interfaces, ∀ v w,
    Paired (p.siblings ledger interface) v w → Connected shares v w
  joined : pool.joined = (interfaces.map (p.siblingFollowers ledger)).sum

namespace Pooled

variable {interfaces : List TypeId} {pool : Pool}

theorem onlyShares (h : Pooled p ledger past shares interfaces pool) : OnlyShares shares := by
  intro op hop
  obtain ⟨a, b, he, _⟩ := h.paired op hop
  exact ⟨a, b, he⟩

/-- The siblings of the next interface are those that the ledger had before pooling. -/
theorem gathers (h : Pooled p ledger past shares interfaces pool) (start : past.LeadsTo ledger)
    (interface : TypeId) :
    ∃ more, Gathered ((p.interfaceMethods interface).map (·.key)) pool.joined (shares ++ past)
      more (p.siblings ledger interface) (p.poolInterface pool interface) := by
  have same := p.siblings_congr (start.shared_lookup h.onlyShares h.leads) interface
  have fresh : Gathered ((p.interfaceMethods interface).map (·.key)) pool.joined (shares ++ past)
      [] [] { pool with firsts := [] } :=
    { issued := by simp
      leads := h.leads
      paired := by simp
      firsts := by simp
      joins := by simp
      joined := by simp }
  have known : ∀ entry ∈ p.siblings ledger interface, Issued (shares ++ past) entry.2 := by
    intro entry he
    rw [← h.leads.follows.has_iff, start.shared_has_iff h.onlyShares h.leads]
    exact (mem_siblings he).2
  have hall := fresh.addAll (p.interfaceMethods_keys interface)
    (fun entry he => (mem_siblings he).1) known
  simpa only [poolInterface_def, same, List.nil_append] using hall

theorem add (h : Pooled p ledger past shares interfaces pool) (start : past.LeadsTo ledger)
    (interface : TypeId) :
    ∃ shares', Pooled p ledger past shares' (interfaces ++ [interface])
      (p.poolInterface pool interface) := by
  obtain ⟨more, hmore⟩ := h.gathers start interface
  refine ⟨more ++ shares, ?_, ?_, ?_, ?_⟩
  · rw [List.append_assoc]
    exact hmore.leads
  · intro op hop
    rcases List.mem_append.mp hop with hop | hop
    · obtain ⟨a, b, he, hp⟩ := hmore.paired op hop
      exact ⟨a, b, he, interface, by simp, hp⟩
    · obtain ⟨a, b, he, other, ho, hp⟩ := h.paired op hop
      exact ⟨a, b, he, other, List.mem_append_left _ ho, hp⟩
  · intro other ho v w hp
    rcases List.mem_append.mp ho with ho | ho
    · exact Relation.EqvGen.mono (fun _ _ hm => List.mem_append_right _ hm) v w
        (h.connects other ho v w hp)
    · rw [List.mem_singleton.mp ho] at hp
      exact Relation.EqvGen.mono (fun _ _ hm => List.mem_append_left _ hm) v w
        (hmore.connects hp)
  · rw [hmore.joined, h.joined, List.map_append, List.sum_append]
    simp [siblingFollowers]

theorem addAll (h : Pooled p ledger past shares interfaces pool) (start : past.LeadsTo ledger)
    (more : List TypeId) :
    ∃ shares', Pooled p ledger past shares' (interfaces ++ more)
      (more.foldl p.poolInterface pool) := by
  induction more generalizing interfaces pool shares with
  | nil => exact ⟨shares, by simpa using h⟩
  | cons interface more ih =>
    obtain ⟨shares', hone⟩ := h.add start interface
    simpa using ih hone

end Pooled

/-- Pooling shares the records of siblings and does nothing else. -/
theorem pool_pooled (p : Program) (start : past.LeadsTo ledger) :
    ∃ shares firsts, Pooled p ledger past shares p.packageInterfaces
      ⟨(p.pool ledger).1, firsts, (p.pool ledger).2⟩ := by
  have before : Pooled p ledger past [] [] ⟨ledger, [], 0⟩ :=
    { leads := start
      paired := by simp
      connects := by simp
      joined := by simp }
  obtain ⟨shares, h⟩ := before.addAll start p.packageInterfaces
  rw [pool_def]
  exact ⟨shares, _, h⟩

/-- Before marking, nothing has been inserted. -/
theorem collected_leadsTo (p : Program) (settings : Settings) :
    ∃ history : History, (∀ v use, .insert v use ∉ history) ∧
      history.LeadsTo (p.pool (p.collect settings)).1 := by
  obtain ⟨shares, _, h⟩ := p.pool_pooled (p.collect_leadsTo settings)
  refine ⟨_, ?_, h.leads⟩
  intro v use hm
  rcases List.mem_append.mp hm with hm | hm
  · obtain ⟨_, _, he⟩ := h.onlyShares _ hm
    cases he
  · obtain ⟨_, _, he⟩ := mem_tracks.mp hm
    cases he

theorem siblings_iff (wf : p.WellFormed) {v w : VarId} : p.Siblings ledger v w ↔
    ∃ interface ∈ p.packageInterfaces, Paired (p.siblings ledger interface) v w := by
  simp only [Siblings, Paired, mem_packageInterfaces, mem_siblings_iff wf]
  constructor
  · intro h
    obtain ⟨interface, key, first, second, hn, hfirst, hv, hsecond, hw⟩ := h
    exact ⟨interface, hn, key, ⟨first, hfirst, hv⟩, second, hsecond, hw⟩
  · intro h
    obtain ⟨interface, hn, key, ⟨first, hfirst, hv⟩, second, hsecond, hw⟩ := h
    exact ⟨interface, key, first, second, hn, hfirst, hv, hsecond, hw⟩

/-- Where nothing was shared before, pooling connects siblings and what siblings connect. -/
theorem Pooled.connected_iff {pool : Pool} (wf : p.WellFormed)
    (h : Pooled p ledger past shares p.packageInterfaces pool)
    (separate : ∀ a b, .share a b ∉ past) {v w : VarId} :
    Connected (shares ++ past) v w ↔ Relation.EqvGen (p.Siblings ledger) v w := by
  constructor
  · refine Relation.EqvGen.mono ?_ v w
    intro a b hm
    rcases List.mem_append.mp hm with hm | hm
    · obtain ⟨_, _, he, hp⟩ := h.paired _ hm
      cases he
      exact (siblings_iff wf).mpr hp
    · exact absurd hm (separate a b)
  · intro hc
    refine Relation.EqvGen.mono (fun _ _ hm => List.mem_append_left _ hm) v w ?_
    induction hc with
    | rel a b hs =>
      obtain ⟨interface, hi, hp⟩ := (siblings_iff wf).mp hs
      exact h.connects interface hi a b hp
    | refl a => exact .refl a
    | symm a b _ ih => exact .symm a b ih
    | trans a b c _ _ first second => exact .trans a b c first second

theorem siblingFollowers_eq (wf : p.WellFormed) (interface : TypeId) :
    p.siblingFollowers ledger interface = ((p.interfaceMethods interface).map fun method =>
      p.implementations ledger interface method.key - 1).sum := by
  simp only [siblingFollowers, followers, countP_siblings wf, List.map_map]
  rfl

/-- From a ledger to a pooled one the records of exactly the siblings are shared, and nothing else
is changed. -/
structure PoolsSiblings (p : Program) (ledger pooled : Ledger) (joined : Nat) : Prop where
  shared : ∀ v ∈ ledger.active, ∀ w ∈ ledger.active,
    (pooled.root v = pooled.root w ↔ Relation.EqvGen (p.Siblings ledger) v w)
  size : pooled.entries.size = ledger.entries.size
  object : ∀ v, (pooled.variableAt v).object = (ledger.variableAt v).object
  active : ∀ v, (pooled.variableAt v).active = (ledger.variableAt v).active
  lookup : ∀ object, pooled.lookup object = ledger.lookup object
  usage : ∀ v, ledger.Has v → pooled.usage v = ledger.usage v
  /-- Of the implementations of a method all but one join another. -/
  joined : joined = (p.packageInterfaces.map fun interface =>
    ((p.interfaceMethods interface).map fun method =>
      p.implementations ledger interface method.key - 1).sum).sum

theorem pool_poolsSiblings (wf : p.WellFormed) (settings : Settings) :
    p.PoolsSiblings (p.collect settings) (p.pool (p.collect settings)).1
      (p.pool (p.collect settings)).2 := by
  have start := p.collect_leadsTo settings
  obtain ⟨shares, firsts, h⟩ := p.pool_pooled start
  obtain ⟨history, unused, hleads⟩ := p.collected_leadsTo settings
  have has : ∀ {v}, (p.pool (p.collect settings)).1.Has v ↔ (p.collect settings).Has v :=
    start.shared_has_iff h.onlyShares h.leads
  constructor
  case shared =>
    intro v hv w hw
    have hv := has.mpr (Ledger.mem_active.mp hv).1
    have hw := has.mpr (Ledger.mem_active.mp hw).1
    rw [h.leads.follows.connected v w hv hw]
    refine h.connected_iff wf ?_
    intro a b hm
    obtain ⟨_, _, he⟩ := mem_tracks.mp hm
    cases he
  case size =>
    rw [h.leads.follows.size, start.follows.size, h.onlyShares.issued]
  case object => exact fun v => (start.shared_frame h.onlyShares h.leads v).1
  case active => exact fun v => (start.shared_frame h.onlyShares h.leads v).2
  case lookup => exact start.shared_lookup h.onlyShares h.leads
  case usage =>
    intro v hv
    rw [hleads.usage_empty unused (has.mpr hv)]
    refine (start.usage_empty ?_ hv).symm
    intro w use hm
    obtain ⟨_, _, he⟩ := mem_tracks.mp hm
    cases he
  case joined =>
    refine h.joined.trans (congrArg List.sum (List.map_congr_left ?_))
    exact fun interface _ => siblingFollowers_eq wf interface

/-- Pooling the tracked variables ends unless a comparison does not, exactly if each check ends
whether a receiver satisfies an interface of the package. Afterwards tracked variables have one
record exactly if implementations of interface methods lead from one to the other. -/
theorem pooling_shares_exactly_the_siblings (p : Program) (valid : p.defect? = none)
    (settings : Settings) :
    p.collectM (m := Strict) settings = .ok (p.collect settings) ∧
      ∃ pooled joined, Follows p.Unsettled (p.poolM (p.collect settings)) (pooled, joined) ∧
        p.PoolsSiblings (p.collect settings) pooled joined ∧
        (p.poolM (m := Strict) (p.collect settings) = .ok (pooled, joined) ↔
          ∀ interface ∈ p.packageInterfaces, ∀ method ∈ p.methodDecls,
            p.pointerImplementsM (m := Strict) method.1 interface =
              .ok (p.pointerImplements method.1 interface)) := by
  have wf := WellFormed.of_defect? valid
  have follows := poolM_follows wf (p.collect settings)
  refine ⟨collectM_ok wf settings, _, _, follows, pool_poolsSiblings wf settings, ?_⟩
  constructor
  · intro run interface hi method hm
    obtain ⟨hdecl, hbase⟩ := mem_methodDecls hm
    have checked := (poolM_returns wf _).mp ⟨_, run⟩ interface hi method hm
    exact (pointerImplementsM_follows wf (receiverBase_resolves wf hdecl hbase)
      (packageInterface_resolves wf hi)).ok_of_returns checked
  · intro checked
    refine follows.ok_of_returns ((poolM_returns wf _).mpr ?_)
    exact fun interface hi method hm => ⟨_, checked interface hi method hm⟩

/-- The interfaces `Left { A(ctx); C() }` and `Right { A(ctx); D() }`, and three types with a method
`A`: the first has `C` too, the last `D`, and the second both. -/
def overlappingInterfaces : Program where
  package := ⟨0⟩
  packages := #[⟨"app", "app"⟩, ⟨"context", "context"⟩]
  types := #[
    .signature ⟨[], [], false⟩,
    .interface ⟨[⟨"Done", none, ⟨0⟩⟩], []⟩,
    .named ⟨"Context", some ⟨1⟩, ⟨1⟩, []⟩,
    .interface ⟨[⟨"M", none, ⟨0⟩⟩], []⟩,
    .named ⟨"Capability", some ⟨0⟩, ⟨3⟩, []⟩,
    .interface ⟨[], [⟨2⟩, ⟨4⟩]⟩,
    .signature ⟨[⟨⟨5⟩, none⟩], [], false⟩,
    .interface ⟨[⟨"A", none, ⟨6⟩⟩, ⟨"C", none, ⟨0⟩⟩], []⟩,
    .named ⟨"Left", some ⟨0⟩, ⟨7⟩, []⟩,
    .interface ⟨[⟨"A", none, ⟨6⟩⟩, ⟨"D", none, ⟨0⟩⟩], []⟩,
    .named ⟨"Right", some ⟨0⟩, ⟨9⟩, []⟩,
    .struct [],
    .named ⟨"T", some ⟨0⟩, ⟨11⟩, [⟨⟨2⟩, false⟩, ⟨⟨3⟩, false⟩]⟩,
    .named ⟨"U", some ⟨0⟩, ⟨11⟩, [⟨⟨4⟩, false⟩, ⟨⟨5⟩, false⟩, ⟨⟨6⟩, false⟩]⟩,
    .named ⟨"V", some ⟨0⟩, ⟨11⟩, [⟨⟨7⟩, false⟩, ⟨⟨8⟩, false⟩]⟩]
  objects :=
    let method name receiver type : Object :=
      ⟨name, .method ⟨receiver⟩, some ⟨0⟩, some ⟨type⟩, none⟩
    let ctx : Object := ⟨"ctx", .variable, some ⟨0⟩, some ⟨5⟩, none⟩
    #[⟨"Left", .typeName, some ⟨0⟩, some ⟨8⟩, none⟩,
      ⟨"Right", .typeName, some ⟨0⟩, some ⟨10⟩, none⟩,
      method "A" 12 6, method "C" 12 0,
      method "A" 13 6, method "C" 13 0, method "D" 13 0,
      method "A" 14 6, method "D" 14 0,
      ctx, ctx, ctx]
  files :=
    let name text binding : Ident := ⟨text, ⟨⟨0⟩, 0, 0⟩, binding⟩
    let method text receiver object ctx : Decl :=
      .func ⟨some [⟨[], ⟨.ident (name text none), some ⟨receiver⟩⟩⟩],
        name "A" (some (.defines ⟨object⟩)),
        ⟨[⟨[name "ctx" (some (.defines ⟨ctx⟩))], ⟨.interfaceType [], some ⟨5⟩⟩⟩], []⟩, some ⟨[]⟩⟩
    [⟨⟨0⟩, "app.go", [method "T" 12 2 9, method "U" 13 4 10, method "V" 14 7 11]⟩]

/-- The outer two implement no interface together; the one in between connects them. -/
theorem overlappingInterfaces_pooled :
    overlappingInterfaces.defect? = none ∧
      (overlappingInterfaces.collect .default).active = [⟨0⟩, ⟨1⟩, ⟨2⟩] ∧
      ∃ pooled joined,
        overlappingInterfaces.poolM (m := Strict) (overlappingInterfaces.collect .default) =
          .ok (pooled, joined) ∧
        overlappingInterfaces.PoolsSiblings (overlappingInterfaces.collect .default) pooled joined ∧
        Relation.EqvGen
          (overlappingInterfaces.Siblings (overlappingInterfaces.collect .default)) ⟨0⟩ ⟨2⟩ ∧
        joined = 2 := by
  have valid : overlappingInterfaces.defect? = none := by decide +kernel
  obtain ⟨_, pooled, joined, follows, pools, _⟩ :=
    pooling_shares_exactly_the_siblings overlappingInterfaces valid .default
  have run := follows.ok_of_returns (by decide +kernel)
  have together : (overlappingInterfaces.poolM (m := Strict)
      (overlappingInterfaces.collect .default)).map (fun result =>
        (decide (result.1.root ⟨0⟩ = result.1.root ⟨2⟩), result.2)) = .ok (true, 2) := by
    decide +kernel
  rw [run] at together
  obtain ⟨hroot, hjoined⟩ := Prod.mk.inj (Except.ok.inj together)
  refine ⟨valid, by decide +kernel, pooled, joined, run, pools, ?_, hjoined⟩
  exact (pools.shared ⟨0⟩ (by decide +kernel) ⟨2⟩ (by decide +kernel)).mp (of_decide_eq_true hroot)

/-- The interfaces `Left` and `Right` of `mutualLiterals`, and a type `T` with the method of
`Right`. -/
def rightImplementation : Program :=
  { mutualLiterals with
    types := mutualLiterals.types ++ #[
      .struct [],
      .named ⟨"T", some ⟨0⟩, ⟨10⟩, [⟨⟨0⟩, false⟩]⟩]
    objects := #[
      ⟨"M", .method ⟨11⟩, some ⟨0⟩, some ⟨9⟩, none⟩,
      ⟨"Left", .typeName, some ⟨0⟩, some ⟨4⟩, none⟩,
      ⟨"Right", .typeName, some ⟨0⟩, some ⟨5⟩, none⟩]
    files :=
      let name text binding : Ident := ⟨text, ⟨⟨0⟩, 0, 0⟩, binding⟩
      [⟨⟨0⟩, "p.go", [.func ⟨some [⟨[], ⟨.ident (name "T" none), some ⟨11⟩⟩⟩],
        name "M" (some (.defines ⟨0⟩)), ⟨[], []⟩, some ⟨[]⟩⟩]⟩] }

/-- Whether `T` satisfies `Left` is never settled, so pooling does not end. -/
theorem rightImplementation_never_pooled :
    rightImplementation.defect? = none ∧
      rightImplementation.poolM (m := Strict) (rightImplementation.collect .default) =
        .error (.unsettled ⟨9⟩ ⟨8⟩) ∧
      ∀ depth, rightImplementation.identicalWithin depth ⟨9⟩ ⟨8⟩ = none := by
  have signatures : rightImplementation.Asks (⟨9⟩, ⟨8⟩) (⟨3⟩, ⟨2⟩) :=
    ⟨[], [some (⟨1⟩, ⟨0⟩)], by decide, by simp⟩
  have literals : rightImplementation.Asks (⟨3⟩, ⟨2⟩) (⟨9⟩, ⟨8⟩) :=
    ⟨[], [], by decide, by simp⟩
  have recurs : rightImplementation.Recurs (⟨9⟩, ⟨8⟩) := .tail (.single signatures) literals
  exact ⟨by decide +kernel, by decide +kernel, recurs.unanswered⟩

end Program

end LeastContext

import LeastContext.Proofs.FieldChains
import LeastContext.Proofs.Lists

namespace LeastContext

namespace Candidate

variable {candidates : List Candidate} {methods : List Method} {method : Method}
  {key : MethodKey}

/-- The candidate of a key. -/
def ofKey? (candidates : List Candidate) (key : MethodKey) : Option Candidate :=
  candidates.find? (·.method.key = key)

/-- The candidate that methods of one key make, with one that is there already. -/
def tally : Option Candidate → List Method → Option Candidate
  | some candidate, methods => some { candidate with count := candidate.count + methods.length }
  | none, [] => none
  | none, method :: more => some ⟨method, more.length + 1⟩

theorem ofKey?_add : ofKey? (add candidates method) key =
    if method.key = key then tally (ofKey? candidates key) [method]
    else ofKey? candidates key := by
  induction candidates with
  | nil => by_cases h : method.key = key <;> simp [add, ofKey?, tally, h]
  | cons first more ih =>
    rw [add]
    split
    · rename_i hfirst
      by_cases h : method.key = key <;> simp [ofKey?, tally, hfirst, h]
    · rename_i hfirst
      by_cases h : first.method.key = key
      · have hne : method.key ≠ key := fun he => hfirst (h.trans he.symm)
        simp [ofKey?, h, hne]
      · simpa [ofKey?, h] using ih

theorem ofKey?_foldl : ofKey? (methods.foldl add candidates) key =
    tally (ofKey? candidates key) (methods.filter (·.key = key)) := by
  induction methods generalizing candidates with
  | nil => cases h : ofKey? candidates key <;> simp [tally, h]
  | cons method methods ih =>
    rw [List.foldl_cons, ih, ofKey?_add]
    by_cases h : method.key = key
    · cases ofKey? candidates key <;> simp [tally, h, Nat.add_assoc, Nat.add_comm]
    · simp [h]

theorem mem_iff_ofKey? (keys : (candidates.map (·.method.key)).Nodup) {candidate : Candidate} :
    candidate ∈ candidates ↔ ofKey? candidates candidate.method.key = some candidate := by
  refine ⟨?_, List.mem_of_find?_eq_some⟩
  intro h
  induction candidates with
  | nil => cases h
  | cons first more ih =>
    obtain ⟨hfirst, hmore⟩ := List.nodup_cons.mp keys
    rcases List.mem_cons.mp h with rfl | h
    · simp [ofKey?]
    · have hne : first.method.key ≠ candidate.method.key := by
        intro he
        exact hfirst (List.mem_map.mpr ⟨candidate, h, he.symm⟩)
      simpa [ofKey?, hne] using ih hmore h

/-- A method is counted once exactly if no other one of the list has its key. -/
theorem single_mem_foldl (keys : ((methods.foldl add []).map (·.method.key)).Nodup) :
    ⟨method, 1⟩ ∈ methods.foldl add [] ↔ methods.filter (·.key = method.key) = [method] := by
  rw [mem_iff_ofKey? keys, ofKey?_foldl]
  cases hlist : methods.filter (·.key = method.key) with
  | nil => simp [ofKey?, tally]
  | cons first more => simp [ofKey?, tally]

theorem key_mem_foldl : (∃ candidate ∈ methods.foldl add [], candidate.method.key = key) ↔
    ∃ method ∈ methods, method.key = key := by
  have hfind : (∃ candidate ∈ methods.foldl add [], candidate.method.key = key) ↔
      (ofKey? (methods.foldl add []) key).isSome = true := by
    simp [ofKey?]
  rw [hfind, ofKey?_foldl]
  cases hlist : methods.filter (·.key = key) with
  | nil =>
    simpa [ofKey?, tally] using hlist
  | cons first more =>
    have hfirst : first ∈ methods.filter (·.key = key) := hlist ▸ List.mem_cons_self
    obtain ⟨hmem, hkey⟩ := List.mem_filter.mp hfirst
    simpa [ofKey?, tally] using ⟨first, hmem, by simpa using hkey⟩

end Candidate

namespace Program

variable {p : Program} {id : TypeId} {method : Method}

/-- Some method that a visited type brings has a key. -/
def Brings (p : Program) (visit : Reached) (key : MethodKey) : Prop :=
  ∃ method ∈ p.ownMethods visit, method.key = key

instance (p : Program) (visit : Reached) (key : MethodKey) : Decidable (p.Brings visit key) :=
  inferInstanceAs (Decidable (∃ method ∈ p.ownMethods visit, method.key = key))

theorem not_brings {visit : Reached} {key : MethodKey} :
    (p.ownMethods visit).filter (·.key = key) = [] ↔ ¬ p.Brings visit key := by
  simp [Brings]

theorem brings_of_once {visit : Reached}
    (h : (p.ownMethods visit).filter (·.key = method.key) = [method]) :
    p.Brings visit method.key := by
  by_contra hno
  rw [not_brings.mpr hno] at h
  cases h

section Level

variable {hidden : List MethodKey} {visits : List Reached}

/-- The candidates that a level adds, hidden keys left out. -/
def fresh (p : Program) (hidden : List MethodKey) (visits : List Reached) : List Candidate :=
  ((visits.flatMap p.ownMethods).foldl Candidate.add []).filter (·.method.key ∉ hidden)

/-- A level adds the methods that it has once under a key not hidden. -/
theorem mem_fresh_once (keys : (((visits.flatMap p.ownMethods).foldl Candidate.add []).map
    (·.method.key)).Nodup) :
    method ∈ ((p.fresh hidden visits).filter (·.count = 1)).map (·.method) ↔
      method.key ∉ hidden ∧
        (visits.flatMap p.ownMethods).filter (·.key = method.key) = [method] := by
  rw [← Candidate.single_mem_foldl keys]
  simp only [fresh, List.mem_map, List.mem_filter, decide_eq_true_eq]
  constructor
  · intro h
    obtain ⟨⟨_, _⟩, ⟨⟨hmem, hkey⟩, rfl⟩, rfl⟩ := h
    exact ⟨hkey, hmem⟩
  · intro h
    exact ⟨⟨method, 1⟩, ⟨⟨h.2, h.1⟩, rfl⟩, rfl⟩

/-- A level hides the keys that it brings. -/
theorem mem_fresh_keys {key : MethodKey} :
    key ∈ (p.fresh hidden visits).map (·.method.key) ++ hidden ↔
      key ∈ hidden ∨ ∃ visit ∈ visits, p.Brings visit key := by
  have hkeys : (∃ visit ∈ visits, p.Brings visit key) ↔
      ∃ candidate ∈ (visits.flatMap p.ownMethods).foldl Candidate.add [],
        candidate.method.key = key := by
    rw [Candidate.key_mem_foldl]
    simp only [Brings, List.mem_flatMap]
    grind
  rw [hkeys, List.mem_append, List.mem_map]
  simp only [fresh, List.mem_filter, decide_eq_true_eq]
  grind

theorem promoteWithin_cons {fuel : Nat} {seen : List TypeId} {first : Reached}
    {level : List Reached} (hvisits : firstVisits seen (first :: level) = visits) :
    p.promoteWithin (fuel + 1) seen hidden (first :: level) =
      ((p.fresh hidden visits).filter (·.count = 1)).map (·.method) ++
        p.promoteWithin fuel ((visits.map (·.type)).reverse ++ seen)
          ((p.fresh hidden visits).map (·.method.key) ++ hidden)
          (visits.flatMap p.embeddedFields) := by
  rw [promoteWithin_succ, scan_eq, hvisits]
  rfl

end Level

/-- Promotion has the methods that are met once on the first level that brings their key. -/
theorem mem_promoteWithin {fuel : Nat} {seen : List TypeId} {hidden : List MethodKey}
    {level : List Reached} : method ∈ p.promoteWithin fuel seen hidden level ↔
      method.key ∉ hidden ∧ ∃ (above below : List (List Reached)) (visits : List Reached),
        p.visitsWithin fuel seen level = above ++ visits :: below ∧
        (visits.flatMap p.ownMethods).filter (·.key = method.key) = [method] ∧
        ∀ others ∈ above, ∀ visit ∈ others, ¬ p.Brings visit method.key := by
  induction fuel generalizing seen hidden level with
  | zero => simp [promoteWithin_zero, visitsWithin]
  | succ fuel ih =>
    cases level with
    | nil => simp [promoteWithin_nil, visitsWithin]
    | cons first level =>
      obtain ⟨visits, hvisits⟩ : ∃ visits, firstVisits seen (first :: level) = visits := ⟨_, rfl⟩
      have keys : (((visits.flatMap p.ownMethods).foldl Candidate.add []).map
          (·.method.key)).Nodup := by
        have := found_keys (p := p) (first :: level) seen
        rwa [scan_eq, hvisits] at this
      have hlevels : p.visitsWithin (fuel + 1) seen (first :: level) =
          visits :: p.visitsWithin fuel ((visits.map (·.type)).reverse ++ seen)
            (visits.flatMap p.embeddedFields) := by
        rw [visitsWithin, hvisits]
        simp
      have hunbrought : (∀ visit ∈ visits, ¬ p.Brings visit method.key) ↔
          ¬ ∃ visit ∈ visits, p.Brings visit method.key := by
        simp
      rw [promoteWithin_cons hvisits, List.mem_append, mem_fresh_once keys, ih, mem_fresh_keys,
        hlevels, exists_first_cons, hunbrought, not_or, and_assoc, ← and_or_left]

/-- A level has a method once exactly if one visit brings it once and no other brings its key. -/
theorem once_on_level {visits : List Reached} (nodup : visits.Nodup) :
    (visits.flatMap p.ownMethods).filter (·.key = method.key) = [method] ↔
      ∃ visit ∈ visits, (p.ownMethods visit).filter (·.key = method.key) = [method] ∧
        ∀ other ∈ visits, p.Brings other method.key → other = visit := by
  rw [List.filter_flatMap, flatMap_eq_singleton]
  constructor
  · intro h
    obtain ⟨before, visit, after, rfl, hone, hothers⟩ := h
    refine ⟨visit, by simp, hone, ?_⟩
    intro other hother hbrings
    by_contra hne
    have helsewhere : other ∈ before ++ after := by simpa [hne] using hother
    exact not_brings.mp (hothers other helsewhere) hbrings
  · intro h
    obtain ⟨visit, hv, hone, hsole⟩ := h
    obtain ⟨before, after, rfl⟩ := List.append_of_mem hv
    refine ⟨before, visit, after, rfl, hone, ?_⟩
    intro other hother
    rw [not_brings]
    intro hbrings
    -- it would be the visit itself, which stands in the level only once
    have hin : other ∈ before ++ visit :: after :=
      List.perm_middle.mem_iff.mpr (List.mem_cons_of_mem _ hother)
    obtain rfl := hsole other hin hbrings
    exact (List.nodup_cons.mp (List.nodup_middle.mp nodup)).1 hother

/-- A promoted method is brought once by one visited type, and nothing else that is visited on its
level or above brings its key. -/
theorem mem_promotedMethods {addressable : Bool} :
    method ∈ p.promotedMethods id addressable ↔ ∃ n visit, p.Visits id addressable n visit ∧
      (p.ownMethods visit).filter (·.key = method.key) = [method] ∧
      ∀ m ≤ n, ∀ other, p.Visits id addressable m other → p.Brings other method.key →
        other = visit := by
  obtain ⟨levels, hlevels⟩ : ∃ levels,
    p.visitsWithin (p.types.size + 1) [] [⟨id, addressable⟩] = levels := ⟨_, rfl⟩
  have nodup : ∀ visits ∈ levels, visits.Nodup := by
    intro visits hmem
    exact List.Nodup.of_map _ (visitsWithin_nodup (hlevels ▸ hmem))
  rw [promotedMethods_def, mem_promoteWithin, hlevels]
  constructor
  · intro h
    obtain ⟨_, above, below, visits, rfl, hone, hnew⟩ := h
    obtain ⟨visit, hv, hone, hsole⟩ := (once_on_level (nodup visits (by simp))).mp hone
    refine ⟨above.length, visit, ⟨visits, by simp [hlevels], hv⟩, hone, ?_⟩
    intro m hm other hother hbrings
    obtain ⟨level, hlevel, hother⟩ := hother
    rw [hlevels] at hlevel
    rcases Nat.lt_or_eq_of_le hm with hlt | rfl
    · rw [List.getElem?_append_left hlt] at hlevel
      exact absurd hbrings (hnew level (List.mem_of_getElem? hlevel) other hother)
    · obtain rfl : visits = level := by simpa using hlevel
      exact hsole other hother hbrings
  · intro h
    obtain ⟨n, visit, here, hone, hsole⟩ := h
    obtain ⟨visits, hvisits, hv⟩ := here
    rw [hlevels] at hvisits
    obtain ⟨hn, he⟩ := List.getElem?_eq_some_iff.mp hvisits
    refine ⟨by simp, levels.take n, levels.drop (n + 1), visits, ?_, ?_, ?_⟩
    · rw [← he, List.getElem_cons_drop, List.take_append_drop]
    · refine (once_on_level (nodup visits (List.mem_of_getElem? hvisits))).mpr
        ⟨visit, hv, hone, ?_⟩
      intro other hother
      exact hsole n (Nat.le_refl n) other ⟨visits, hlevels ▸ hvisits, hother⟩
    · intro others hothers other hother hbrings
      obtain ⟨m, hm, hlevel⟩ := List.mem_take_iff_getElem.mp hothers
      have hlt : m < n := by omega
      have hlevel' : levels[m]? = some others :=
        List.getElem?_eq_some_iff.mpr ⟨by omega, hlevel⟩
      have hother' : p.Visits id addressable m other := ⟨others, hlevels ▸ hlevel', hother⟩
      obtain rfl := hsole m (Nat.le_of_lt hlt) other hother' hbrings
      have here : p.Visits id addressable n other := ⟨visits, hlevels ▸ hvisits, hv⟩
      exact Nat.ne_of_lt hlt (hother'.depth.unique here.depth)

/-- A type offers a key by itself: by a method declared on it or, being an interface, by one that
it has. -/
def Offers (p : Program) (id : TypeId) (key : MethodKey) : Prop :=
  p.Brings ⟨id, true⟩ key

instance (p : Program) (id : TypeId) (key : MethodKey) : Decidable (p.Offers id key) :=
  inferInstanceAs (Decidable (p.Brings ⟨id, true⟩ key))

/-- A chain of embedded fields leads to a type that offers a key, and no shorter one does. -/
structure Shortest (p : Program) (id : TypeId) (key : MethodKey) (fields : List Nat)
    (provider : TypeId) : Prop where
  chain : p.FieldChain id fields provider
  offers : p.Offers provider key
  least : ∀ others other, p.FieldChain id others other → p.Offers other key →
    fields.length ≤ others.length

namespace Shortest

variable {key : MethodKey} {fields others : List Nat} {provider other : TypeId}

theorem depth (h : p.Shortest id key fields provider) : p.Depth id fields.length provider := by
  refine ⟨⟨fields, h.chain, rfl⟩, ?_⟩
  intro m hm hreach
  obtain ⟨others, hchain, rfl⟩ := hreach
  exact Nat.not_le_of_lt hm (h.least others provider hchain h.offers)

end Shortest

/-- If any chain leads to a key, some chain is shortest. -/
theorem exists_shortest {key : MethodKey} {fields : List Nat} {provider : TypeId}
    (chain : p.FieldChain id fields provider) (offers : p.Offers provider key) :
    ∃ others other, p.Shortest id key others other := by
  classical
  let leads n := ∃ others other, p.FieldChain id others other ∧ p.Offers other key ∧
    others.length = n
  have some : ∃ n, leads n := ⟨_, fields, provider, chain, offers, rfl⟩
  obtain ⟨others, other, hchain, hoffers, hlength⟩ := Nat.find_spec some
  refine ⟨others, other, hchain, hoffers, ?_⟩
  intro fields' provider' hchain' hoffers'
  rw [hlength]
  exact Nat.find_min' some ⟨fields', provider', hchain', hoffers', rfl⟩

/-- A method is promoted from an addressable value exactly if the shortest chains to its key all
lead to one type, and this type offers the key once. -/
theorem mem_promotedMethods_iff (wf : p.WellFormed) :
    method ∈ p.promotedMethods id true ↔ ∃ provider,
      (∃ fields, p.Shortest id method.key fields provider) ∧
      (∀ fields other, p.Shortest id method.key fields other → other = provider) ∧
      (p.ownMethods ⟨provider, true⟩).filter (·.key = method.key) = [method] := by
  rw [mem_promotedMethods]
  constructor
  · intro h
    obtain ⟨n, visit, hvisit, hone, hsole⟩ := h
    have hbrings := brings_of_once hone
    obtain ⟨provider, _⟩ := visit
    obtain rfl : _ = true := hvisit.addressable
    obtain ⟨fields, hchain, hlength⟩ := hvisit.depth.1
    obtain ⟨others, other, hshortest⟩ := exists_shortest hchain hbrings
    -- a shortest chain is no longer than this one, so its end is visited in time
    have sole : ∀ fields other, p.Shortest id method.key fields other → other = provider := by
      intro fields' other' hs
      obtain ⟨visit, hvisit', rfl⟩ := hs.depth.visited wf true
      obtain ⟨type, _⟩ := visit
      obtain rfl : _ = true := hvisit'.addressable
      have hle : fields'.length ≤ n := hlength ▸ hs.least fields provider hchain hbrings
      exact congrArg Reached.type (hsole _ hle _ hvisit' hs.offers)
    refine ⟨provider, ?_, sole, hone⟩
    exact ⟨others, sole others other hshortest ▸ hshortest⟩
  · intro h
    obtain ⟨provider, ⟨fields, hs⟩, hsole, hone⟩ := h
    obtain ⟨visit, hvisit, rfl⟩ := hs.depth.visited wf true
    obtain ⟨provider, _⟩ := visit
    obtain rfl : _ = true := hvisit.addressable
    refine ⟨fields.length, ⟨provider, true⟩, hvisit, hone, ?_⟩
    intro m hm other hother hbrings
    obtain ⟨type, _⟩ := other
    obtain rfl : _ = true := hother.addressable
    obtain ⟨others, hchain, rfl⟩ := hother.depth.1
    have hshortest : p.Shortest id method.key others type := by
      refine ⟨hchain, hbrings, ?_⟩
      intro others' other' hchain' hoffers'
      exact Nat.le_trans hm (hs.least others' other' hchain' hoffers')
    rw [hsole others type hshortest]

/-- A method is promoted from an addressable value exactly if the shortest chains to its key all
lead to one type, however many they are, and this type offers the key once. Where no two of them
lead to one type, this means that there is one shortest chain. -/
theorem promoted_iff_one_provider (p : Program) (valid : p.defect? = none) (id : TypeId)
    (method : Method) :
    (method ∈ p.promotedMethods id true ↔ ∃ provider,
      (∃ fields, p.Shortest id method.key fields provider) ∧
      (∀ fields other, p.Shortest id method.key fields other → other = provider) ∧
      (p.ownMethods ⟨provider, true⟩).filter (·.key = method.key) = [method]) ∧
    ((∀ fields others provider, p.Shortest id method.key fields provider →
        p.Shortest id method.key others provider → fields = others) →
      (method ∈ p.promotedMethods id true ↔ ∃ fields provider,
        p.Shortest id method.key fields provider ∧
        (∀ others other, p.Shortest id method.key others other → others = fields) ∧
        (p.ownMethods ⟨provider, true⟩).filter (·.key = method.key) = [method])) := by
  have wf := WellFormed.of_defect? valid
  refine ⟨mem_promotedMethods_iff wf, ?_⟩
  intro apart
  rw [mem_promotedMethods_iff wf]
  constructor
  · intro h
    obtain ⟨provider, ⟨fields, hs⟩, hsole, hone⟩ := h
    refine ⟨fields, provider, hs, ?_, hone⟩
    intro others other hother
    obtain rfl := hsole others other hother
    exact apart others fields other hother hs
  · intro h
    obtain ⟨fields, provider, hs, hsole, hone⟩ := h
    refine ⟨provider, ⟨fields, hs⟩, ?_, hone⟩
    intro others other hother
    obtain rfl := hsole others other hother
    exact hother.chain.unique hs.chain

/-- `C` has a method `M`, `A` and `B` embed `C`, and `T` embeds `A` and `B`. -/
def diamond : Program where
  package := ⟨0⟩
  packages := #[⟨"app", "app"⟩]
  types := #[
    .signature ⟨[], [], false⟩,
    .struct [],
    .named ⟨"C", some ⟨0⟩, ⟨1⟩, [⟨⟨0⟩, false⟩]⟩,
    .struct [⟨"C", ⟨2⟩, true⟩],
    .named ⟨"A", some ⟨0⟩, ⟨3⟩, []⟩,
    .named ⟨"B", some ⟨0⟩, ⟨3⟩, []⟩,
    .struct [⟨"A", ⟨4⟩, true⟩, ⟨"B", ⟨5⟩, true⟩],
    .named ⟨"T", some ⟨0⟩, ⟨6⟩, []⟩,
    .pointer ⟨7⟩]
  objects := #[⟨"M", .method ⟨2⟩, some ⟨0⟩, some ⟨0⟩, none⟩]
  files := []

theorem diamond_valid : diamond.defect? = none := by
  decide +kernel

theorem diamond_embeds {b : TypeId} {i : Nat} (h : diamond.EmbedsField ⟨7⟩ i b) :
    b = ⟨4⟩ ∨ b = ⟨5⟩ := by
  obtain ⟨next, hnext, rfl⟩ := mem_embeddedFields.mpr ⟨i, h⟩
  have listed : next ∈ [⟨⟨4⟩, true⟩, ⟨⟨5⟩, true⟩] := hnext
  simp only [List.mem_cons, List.not_mem_nil, or_false] at listed
  rcases listed with rfl | rfl
  · exact .inl rfl
  · exact .inr rfl

theorem diamond_least {fields : List Nat} {provider : TypeId}
    (chain : diamond.FieldChain ⟨7⟩ fields provider)
    (offers : diamond.Offers provider ⟨"M", none⟩) :
    2 ≤ fields.length := by
  cases chain with
  | here => exact absurd offers (by decide +kernel)
  | through first rest =>
    cases rest with
    | here =>
      rcases diamond_embeds first with rfl | rfl
      · exact absurd offers (by decide +kernel)
      · exact absurd offers (by decide +kernel)
    | through => simp

/-- Both chains from `T` to `C` are shortest, and `M` is promoted all the same. -/
theorem diamond_promotes : diamond.defect? = none ∧
    diamond.Shortest ⟨7⟩ ⟨"M", none⟩ [0, 0] ⟨2⟩ ∧ diamond.Shortest ⟨7⟩ ⟨"M", none⟩ [1, 0] ⟨2⟩ ∧
      ⟨⟨"M", none⟩, ⟨0⟩⟩ ∈ diamond.promotedMethods ⟨7⟩ true := by
  have offers : diamond.Offers ⟨2⟩ ⟨"M", none⟩ := by decide +kernel
  have hA : diamond.EmbeddedField ⟨7⟩ 0 ⟨"A", ⟨4⟩, true⟩ := ⟨_, rfl, rfl, rfl⟩
  have hB : diamond.EmbeddedField ⟨7⟩ 1 ⟨"B", ⟨5⟩, true⟩ := ⟨_, rfl, rfl, rfl⟩
  have hAC : diamond.EmbeddedField ⟨4⟩ 0 ⟨"C", ⟨2⟩, true⟩ := ⟨_, rfl, rfl, rfl⟩
  have hBC : diamond.EmbeddedField ⟨5⟩ 0 ⟨"C", ⟨2⟩, true⟩ := ⟨_, rfl, rfl, rfl⟩
  have left : diamond.FieldChain ⟨7⟩ [0, 0] ⟨2⟩ :=
    .through (.value hA nofun) (.through (.value hAC nofun) .here)
  have right : diamond.FieldChain ⟨7⟩ [1, 0] ⟨2⟩ :=
    .through (.value hB nofun) (.through (.value hBC nofun) .here)
  refine ⟨diamond_valid, ⟨left, offers, ?_⟩, ⟨right, offers, ?_⟩, by decide +kernel⟩
  · intro others other
    exact diamond_least
  · intro others other
    exact diamond_least

theorem diamond_side_chains {fields : List Nat} {provider : TypeId}
    (h : diamond.Shortest ⟨4⟩ ⟨"M", none⟩ fields provider) : fields = [0] := by
  have hC : diamond.EmbeddedField ⟨4⟩ 0 ⟨"C", ⟨2⟩, true⟩ := ⟨_, rfl, rfl, rfl⟩
  have hshort : fields.length ≤ 1 :=
    h.least [0] ⟨2⟩ (.through (.value hC nofun) .here) (by decide +kernel)
  cases h.chain with
  | here => exact absurd h.offers (by decide +kernel)
  | @through _ i _ rest _ first _ =>
    obtain rfl : rest = [] := by simpa using hshort
    obtain ⟨field, members, hform, hi, _⟩ : ∃ field, diamond.EmbeddedField ⟨4⟩ i field := by
      cases first with
      | value hfield _ => exact ⟨_, hfield⟩
      | pointer hfield _ => exact ⟨_, hfield⟩
    obtain rfl : [⟨"C", ⟨2⟩, true⟩] = members := TypeForm.struct.inj hform
    obtain ⟨hlt, _⟩ := List.getElem?_eq_some_iff.mp hi
    obtain rfl : i = 0 := by simpa using hlt
    rfl

/-- In `A` one chain leads to `M`. -/
theorem diamond_side_promotes : diamond.defect? = none ∧
    (∀ fields others provider, diamond.Shortest ⟨4⟩ ⟨"M", none⟩ fields provider →
      diamond.Shortest ⟨4⟩ ⟨"M", none⟩ others provider → fields = others) ∧
    ∃ fields provider, diamond.Shortest ⟨4⟩ ⟨"M", none⟩ fields provider ∧
      (∀ others other, diamond.Shortest ⟨4⟩ ⟨"M", none⟩ others other → others = fields) ∧
      (diamond.ownMethods ⟨provider, true⟩).filter (·.key = ⟨"M", none⟩) =
        [⟨⟨"M", none⟩, ⟨0⟩⟩] := by
  have apart : ∀ fields others provider, diamond.Shortest ⟨4⟩ ⟨"M", none⟩ fields provider →
      diamond.Shortest ⟨4⟩ ⟨"M", none⟩ others provider → fields = others := by
    intro fields others provider h h'
    rw [diamond_side_chains h, diamond_side_chains h']
  refine ⟨diamond_valid, apart, ?_⟩
  exact ((promoted_iff_one_provider diamond diamond_valid ⟨4⟩ ⟨⟨"M", none⟩, ⟨0⟩⟩).2 apart).mp
    (by decide +kernel)

end Program

end LeastContext

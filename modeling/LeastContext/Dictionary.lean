namespace LeastContext

/-- Values by key, each key once. -/
structure Dictionary (κ ν : Type) where
  entries : List (κ × ν)
  distinct : (entries.map Prod.fst).Nodup

namespace Dictionary

variable {κ ν : Type} [DecidableEq κ]

def empty : Dictionary κ ν :=
  ⟨[], .nil⟩

variable (dictionary : Dictionary κ ν)

/-- The value at a key, if there is one. -/
def get? (key : κ) : Option ν :=
  dictionary.entries.lookup key

def size : Nat :=
  dictionary.entries.length

def erase (key : κ) : Dictionary κ ν where
  entries := dictionary.entries.filter (·.1 ≠ key)
  distinct := dictionary.distinct.sublist (List.filter_sublist.map Prod.fst)

/-- Puts a value at a key, in place of what was there. -/
def insert (key : κ) (value : ν) : Dictionary κ ν where
  entries := (key, value) :: (dictionary.erase key).entries
  distinct := by
    refine List.nodup_cons.mpr ⟨?_, (dictionary.erase key).distinct⟩
    intro h
    obtain ⟨entry, hentry, hkey⟩ := List.mem_map.mp h
    simpa [hkey] using (List.mem_filter.mp hentry).2

@[simp]
theorem get?_empty (key : κ) : (empty : Dictionary κ ν).get? key = none :=
  rfl

theorem lookup_filter_ne (entries : List (κ × ν)) (key other : κ) :
    (entries.filter (·.1 ≠ key)).lookup other =
      if other = key then none else entries.lookup other := by
  induction entries with
  | nil => simp
  | cons entry entries ih =>
    obtain ⟨k, value⟩ := entry
    by_cases hk : k = key
    · subst hk
      by_cases he : other = k
      · simpa [he] using ih
      · have hne : (other == k) = false := by simp [he]
        simpa [he, List.lookup_cons, hne] using ih
    · by_cases he : other = k
      · simp [hk, he]
      · have hne : (other == k) = false := by simp [he]
        simpa [hk, List.lookup_cons, hne] using ih

theorem get?_erase (key other : κ) :
    (dictionary.erase key).get? other = if other = key then none else dictionary.get? other :=
  lookup_filter_ne dictionary.entries key other

theorem get?_insert (key other : κ) (value : ν) :
    (dictionary.insert key value).get? other =
      if other = key then some value else dictionary.get? other := by
  by_cases he : other = key
  · simp [get?, insert, he]
  · have hne : (other == key) = false := by simp [he]
    have herase := dictionary.get?_erase key other
    simpa [get?, insert, List.lookup_cons, hne, he] using herase

end Dictionary

end LeastContext

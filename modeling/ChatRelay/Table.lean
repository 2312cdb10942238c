/-!
# Finite tables

A finite map from numbers, kept as a list of entries in which no key occurs twice; the type keeps
this. `get?_insert`, `get?_erase` and `get?_modify` say what the operations do.
-/

namespace ChatRelay

/-- A finite map from numbers. -/
structure Table (α : Type) where
  entries : List (Nat × α) := []
  nodup : (entries.map Prod.fst).Nodup := by simp

namespace Table

variable {α : Type}

/-- What stands at this key. -/
def get? (t : Table α) (key : Nat) : Option α :=
  (t.entries.find? (·.1 == key)).map Prod.snd

/-- Something stands at this key. -/
def contains (t : Table α) (key : Nat) : Bool :=
  t.entries.any (·.1 == key)

/-- The table without this key. -/
def erase (t : Table α) (key : Nat) : Table α where
  entries := t.entries.filter (·.1 != key)
  nodup := t.nodup.sublist (List.filter_sublist.map _)

/-- The table with this value at this key, whatever stood there. -/
def insert (t : Table α) (key : Nat) (value : α) : Table α where
  entries := (t.erase key).entries ++ [(key, value)]
  nodup := by
    rw [List.map_append, List.nodup_append]
    refine ⟨(t.erase key).nodup, by simp, ?_⟩
    intro a ha b hb hab
    simp only [List.map_cons, List.map_nil, List.mem_singleton] at hb
    subst hab hb
    obtain ⟨entry, hentry, rfl⟩ := List.mem_map.mp ha
    simp [erase] at hentry

/-- Change the value at one key, if there is one. -/
def modify (t : Table α) (key : Nat) (change : α → α) : Table α where
  entries := t.entries.map fun entry ↦ (entry.1, if entry.1 = key then change entry.2 else entry.2)
  nodup := by
    rw [List.map_map]
    exact t.nodup

/-- How many keys there are. -/
def size (t : Table α) : Nat :=
  t.entries.length

/-- All values. -/
def values (t : Table α) : List α :=
  t.entries.map Prod.snd

theorem contains_eq_isSome (t : Table α) (key : Nat) : t.contains key = (t.get? key).isSome := by
  rw [Bool.eq_iff_iff]
  simp [contains, get?, List.find?_isSome]

@[simp] theorem get?_empty (key : Nat) : ({} : Table α).get? key = none :=
  rfl

@[simp] theorem get?_erase (t : Table α) (key other : Nat) :
    (t.erase key).get? other = if other = key then none else t.get? other := by
  simp only [get?, erase, List.find?_filter]
  split
  · rename_i h
    subst h
    rw [List.find?_eq_none.mpr]
    · rfl
    · intro entry _
      simp
  · rename_i h
    congr 2
    funext entry
    by_cases he : entry.1 = other
    · simp [he, h]
    · simp [he]

@[simp] theorem get?_insert (t : Table α) (key other : Nat) (value : α) :
    (t.insert key value).get? other = if other = key then some value else t.get? other := by
  have herase := get?_erase t key other
  simp only [get?] at herase ⊢
  simp only [insert, List.find?_append]
  by_cases h : other = key
  · subst h
    simp only [if_true, Option.map_eq_none_iff] at herase
    simp [herase]
  · simp only [h, if_false] at herase ⊢
    have hne : (key == other) = false := by simpa using Ne.symm h
    rw [← herase]
    simp [hne]

@[simp] theorem get?_modify (t : Table α) (key other : Nat) (change : α → α) :
    (t.modify key change).get? other =
      if other = key then (t.get? other).map change else t.get? other := by
  simp only [get?, modify, List.find?_map, Function.comp_def, Option.map_map]
  cases hfind : t.entries.find? (·.1 == other) with
  | none => simp
  | some entry =>
      have hkey : entry.1 = other := by simpa using List.find?_some hfind
      simp only [Option.map_some, hkey]
      split <;> rfl

end Table

end ChatRelay

/-!
# Dictionaries

Filters and sample inputs map texts to texts. A dictionary holds each key once, in the order of the
keys, so that two dictionaries with the same content are equal and are written alike.

- `Dictionary.insert`, `Dictionary.erase`: the updates.
- `Dictionary.get?`: the value under a key; `get?_insert`, `get?_erase`: what an update makes of it.
-/

namespace LiveDesk

/-- The entries are in strictly ascending key order. -/
def Ascending (entries : List (String × String)) : Prop :=
  entries.Pairwise fun a b => a.1 < b.1

/-- A finite map from texts to texts. -/
structure Dictionary where
  entries : List (String × String)
  ascending : Ascending entries
  deriving DecidableEq

namespace Dictionary

/-- The dictionary without entries. -/
def empty : Dictionary := ⟨[], .nil⟩

instance : Inhabited Dictionary := ⟨empty⟩

/-- Puts an entry into its place, over an entry with the same key. -/
def insertEntry (key value : String) : List (String × String) → List (String × String)
  | [] => [(key, value)]
  | (k, v) :: rest =>
    if key < k then (key, value) :: (k, v) :: rest
    else if k < key then (k, v) :: insertEntry key value rest
    else (key, value) :: rest

theorem mem_insertEntry {key value : String} {entries : List (String × String)}
    {e : String × String} (h : e ∈ insertEntry key value entries) :
    e = (key, value) ∨ e ∈ entries := by
  induction entries with
  | nil => simpa [insertEntry] using h
  | cons head rest ih =>
    obtain ⟨k, v⟩ := head
    unfold insertEntry at h
    split at h
    · simpa using h
    · split at h
      · rcases List.mem_cons.1 h with h | h
        · exact .inr (h ▸ List.mem_cons_self)
        · rcases ih h with h | h
          · exact .inl h
          · exact .inr (List.mem_cons_of_mem _ h)
      · rcases List.mem_cons.1 h with h | h
        · exact .inl h
        · exact .inr (List.mem_cons_of_mem _ h)

theorem insertEntry_ascending (key value : String) {entries : List (String × String)}
    (h : Ascending entries) : Ascending (insertEntry key value entries) := by
  induction entries with
  | nil => exact .cons (by simp) .nil
  | cons head rest ih =>
    obtain ⟨k, v⟩ := head
    have hrest : Ascending rest := (List.pairwise_cons.1 h).2
    have hk : ∀ e ∈ rest, k < e.1 := (List.pairwise_cons.1 h).1
    unfold insertEntry
    split
    · rename_i hlt
      refine .cons ?_ h
      intro e he
      rcases List.mem_cons.1 he with he | he
      · exact he ▸ hlt
      · exact String.lt_trans hlt (hk e he)
    · split
      · rename_i hlt
        refine .cons ?_ (ih hrest)
        intro e he
        rcases mem_insertEntry he with he | he
        · exact he ▸ hlt
        · exact hk e he
      · rename_i h1 h2
        have heq : key = k :=
          String.le_antisymm (String.not_lt.1 h2) (String.not_lt.1 h1)
        exact .cons (fun e he => heq ▸ hk e he) hrest

/-- The dictionary with `value` under `key`. -/
def insert (d : Dictionary) (key value : String) : Dictionary :=
  ⟨insertEntry key value d.entries, insertEntry_ascending key value d.ascending⟩

/-- The dictionary without `key`. -/
def erase (d : Dictionary) (key : String) : Dictionary :=
  ⟨d.entries.filter fun e => e.1 ≠ key, d.ascending.filter _⟩

/-- The value under a key. -/
def get? (d : Dictionary) (key : String) : Option String :=
  d.entries.lookup key

/-- The number of entries. -/
def size (d : Dictionary) : Nat :=
  d.entries.length

@[simp] theorem get?_empty (key : String) : empty.get? key = none := rfl

theorem lookup_cons (k key value : String) (entries : List (String × String)) :
    List.lookup k ((key, value) :: entries) = if k = key then some value else entries.lookup k := by
  rw [List.lookup_cons]
  by_cases hk : k = key
  · rw [if_pos hk, hk, beq_self_eq_true]
  · rw [if_neg hk, beq_false_of_ne hk]

theorem lookup_insertEntry (key value k : String) (entries : List (String × String)) :
    (insertEntry key value entries).lookup k
      = if k = key then some value else entries.lookup k := by
  induction entries with
  | nil => exact lookup_cons k key value []
  | cons head rest ih =>
    obtain ⟨k', v⟩ := head
    unfold insertEntry
    split
    · exact lookup_cons k key value _
    · next hlt =>
      split
      · next hgt =>
        -- the entry that is passed has another key
        have hne : k' ≠ key := fun heq => String.lt_irrefl _ (heq ▸ hgt)
        rw [lookup_cons, lookup_cons, ih]
        by_cases hk : k = k'
        · rw [if_pos hk, if_pos hk, hk, if_neg hne]
        · rw [if_neg hk, if_neg hk]
      · next hgt =>
        have heq : key = k' := String.le_antisymm (String.not_lt.1 hgt) (String.not_lt.1 hlt)
        rw [lookup_cons, lookup_cons, ← heq]
        by_cases hk : k = key
        · rw [if_pos hk, if_pos hk]
        · rw [if_neg hk, if_neg hk, if_neg hk]

theorem lookup_filter_ne (key k : String) (entries : List (String × String)) :
    (entries.filter fun e => e.1 ≠ key).lookup k = if k = key then none else entries.lookup k := by
  induction entries with
  | nil => exact (ite_self none).symm
  | cons head rest ih =>
    obtain ⟨k', v⟩ := head
    by_cases hhead : k' = key
    · rw [List.filter_cons_of_neg (by simp [hhead]), ih, lookup_cons, hhead]
      by_cases hk : k = key
      · rw [if_pos hk, if_pos hk]
      · rw [if_neg hk, if_neg hk, if_neg hk]
    · rw [List.filter_cons_of_pos (by simp [hhead]), lookup_cons, lookup_cons, ih]
      by_cases hk : k = k'
      · rw [if_pos hk, if_pos hk, hk, if_neg hhead]
      · rw [if_neg hk, if_neg hk]

/-- An insertion changes the value under its key only. -/
theorem get?_insert (d : Dictionary) (key value k : String) :
    (d.insert key value).get? k = if k = key then some value else d.get? k :=
  lookup_insertEntry key value k d.entries

/-- A removal changes the value under its key only. -/
theorem get?_erase (d : Dictionary) (key k : String) :
    (d.erase key).get? k = if k = key then none else d.get? k :=
  lookup_filter_ne key k d.entries

end Dictionary

end LiveDesk

/-!
# Tables

A table is a finite map from names to values, kept as the list of its entries. `insert` puts
a new key at its place in the order of keys, so a table that is built by `insert` alone lists
its entries by key, which is the order in which every answer shows them.
-/

namespace Stepwise

universe u v

/-- A finite map from names, as the list of its entries. -/
abbrev Table (α : Type u) := List (String × α)

namespace Table

variable {α : Type u} {β : Type v}

/-- The value under a key: that of its first entry. -/
def find? : Table α → String → Option α
  | [], _ => none
  | (k, v) :: rest, key => if k = key then some v else find? rest key

/-- Whether a key has an entry. -/
def contains (table : Table α) (key : String) : Bool := (table.find? key).isSome

/-- Sets the value under a key; a new key goes before the first greater one. -/
def insert : Table α → String → α → Table α
  | [], key, value => [(key, value)]
  | (k, v) :: rest, key, value =>
    if k = key then (key, value) :: rest
    else if key < k then (key, value) :: (k, v) :: rest
    else (k, v) :: insert rest key value

/-- Drops every entry of a key. -/
def erase (table : Table α) (key : String) : Table α := table.filter (fun entry => entry.1 ≠ key)

/-- The keys in the order of the entries. -/
def keys (table : Table α) : List String := table.map Prod.fst

/-- The table of a list of entries, in which the last entry of a key counts. -/
def ofList (entries : List (String × α)) : Table α :=
  entries.foldl (fun table entry => insert table entry.1 entry.2) []

/-- Adds the entries of a second table, which win over those of the first. -/
def merge (table other : Table α) : Table α :=
  other.foldl (fun table entry => insert table entry.1 entry.2) table

/-- Changes every value and keeps the keys. -/
def mapValues (f : α → β) (table : Table α) : Table β :=
  table.map (fun entry => (entry.1, f entry.2))

@[simp] theorem find?_nil (key : String) : find? ([] : Table α) key = none := rfl

theorem find?_insert (table : Table α) (key other : String) (value : α) :
    find? (insert table key value) other = if key = other then some value else find? table other := by
  induction table with
  | nil => simp [insert, find?]
  | cons entry rest ih =>
    obtain ⟨k, v⟩ := entry
    simp only [insert]
    split
    · next h => subst h; simp only [find?]; split <;> rfl
    · next h =>
      split
      · simp [find?]
      · simp only [find?, ih]
        split
        · next hk => subst hk; simp [Ne.symm h]
        · rfl

@[simp] theorem find?_insert_self (table : Table α) (key : String) (value : α) :
    find? (insert table key value) key = some value := by
  simp [find?_insert]

theorem find?_insert_of_ne (table : Table α) {key other : String} (value : α) (h : key ≠ other) :
    find? (insert table key value) other = find? table other := by
  simp [find?_insert, h]

theorem find?_erase (table : Table α) (key other : String) :
    find? (erase table key) other = if key = other then none else find? table other := by
  induction table with
  | nil =>
    rw [erase, List.filter_nil, find?_nil, ite_self]
  | cons entry rest ih =>
    obtain ⟨k, v⟩ := entry
    rw [erase] at ih ⊢
    rw [List.filter_cons, find?]
    split
    · next kept =>
      rw [find?, ih]
      have apart : k ≠ key := of_decide_eq_true kept
      split
      · next own => rw [if_neg (own ▸ apart.symm)]
      · rfl
    · next dropped =>
      have own : k = key := by simpa using dropped
      rw [ih, own]
      split <;> rfl

/-- The entries stand in strictly rising order of their keys. -/
def Sorted (table : Table α) : Prop := table.Pairwise (fun a b => a.1 < b.1)

theorem mem_insert {table : Table α} {key : String} {value : α} {entry : String × α}
    (h : entry ∈ insert table key value) : entry = (key, value) ∨ entry ∈ table := by
  induction table with
  | nil => simpa [insert] using h
  | cons head rest ih =>
    simp only [insert] at h
    split at h
    · rcases List.mem_cons.1 h with h | h
      · exact .inl h
      · exact .inr (List.mem_cons_of_mem _ h)
    · split at h
      · rcases List.mem_cons.1 h with h | h
        · exact .inl h
        · exact .inr h
      · rcases List.mem_cons.1 h with h | h
        · exact .inr (h ▸ List.mem_cons_self)
        · exact (ih h).imp_right (List.mem_cons_of_mem _)

theorem Sorted.insert {table : Table α} (h : Sorted table) (key : String) (value : α) :
    Sorted (insert table key value) := by
  induction table with
  | nil => simp [Table.insert, Sorted]
  | cons head rest ih =>
    obtain ⟨k, v⟩ := head
    have hrest : Sorted rest := (List.pairwise_cons.1 h).2
    have hhead := (List.pairwise_cons.1 h).1
    simp only [Table.insert]
    split
    · next e =>
      subst e
      exact List.pairwise_cons.2 ⟨hhead, hrest⟩
    · next hne =>
      split
      · next hlt =>
        refine List.pairwise_cons.2 ⟨?_, h⟩
        intro entry hm
        rcases List.mem_cons.1 hm with e | hm
        · exact e ▸ hlt
        · exact String.lt_trans hlt (hhead entry hm)
      · next hnlt =>
        refine List.pairwise_cons.2 ⟨?_, ih hrest⟩
        intro entry hm
        rcases mem_insert hm with e | hm
        · subst e
          rcases Std.lt_trichotomy k key with hlt | heq | hgt
          · exact hlt
          · exact absurd heq hne
          · exact absurd hgt hnlt
        · exact hhead entry hm

/-- In rising order every entry is the first of its key. -/
theorem Sorted.find?_eq {table : Table α} (h : Sorted table) {entry : String × α}
    (member : entry ∈ table) : find? table entry.1 = some entry.2 := by
  induction table with
  | nil => cases member
  | cons head rest ih =>
    obtain ⟨below, above⟩ := List.pairwise_cons.1 h
    rcases List.mem_cons.1 member with rfl | member
    · exact if_pos rfl
    · have less : head.1 < entry.1 := below entry member
      exact (if_neg (String.ne_of_lt less)).trans (ih above member)

theorem Sorted.nodup_keys {table : Table α} (h : Sorted table) : (keys table).Nodup :=
  List.pairwise_map.2 (List.Pairwise.imp String.ne_of_lt h)

end Table

end Stepwise

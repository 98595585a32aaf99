import Mathlib.Data.List.Nodup
import Stepwise.Table

/-!
# What tables hold

What is found in a list of entries with pairwise distinct keys, and in the table that is made of
it. A table whose entries stand in order is known by what is found in it (`Sorted.ext`).
-/

namespace Stepwise.Table

variable {α : Type}

theorem find?_append (front back : List (String × α)) (key : String) :
    find? (front ++ back) key = (find? front key).or (find? back key) := by
  induction front with
  | nil => rfl
  | cons entry rest ih =>
    rw [List.cons_append, find?, find?]
    split
    · rfl
    · exact ih

theorem find?_eq_none {entries : Table α} {key : String} (missing : key ∉ keys entries) :
    find? entries key = none := by
  induction entries with
  | nil => rfl
  | cons entry rest ih =>
    obtain ⟨other, missing⟩ := not_or.1 (mt List.mem_cons.2 missing)
    rw [find?, if_neg (Ne.symm other), ih missing]

theorem find?_eq_some_iff {entries : List (String × α)} (distinct : (entries.map Prod.fst).Nodup)
    {key : String} {value : α} : find? entries key = some value ↔ (key, value) ∈ entries := by
  induction entries with
  | nil => simp
  | cons entry rest ih =>
    obtain ⟨k, v⟩ := entry
    obtain ⟨fresh, distinct⟩ := List.nodup_cons.1 distinct
    rw [find?]
    split
    · next same =>
      subst same
      have once : (k, value) ∉ rest := fun member =>
        fresh (List.mem_map.2 ⟨(k, value), member, rfl⟩)
      simp [once, eq_comm]
    · next other =>
      rw [ih distinct]
      simp [Ne.symm other]

/-- A table of entries with pairwise distinct keys holds just these. -/
theorem find?_ofList {entries : List (String × α)} (distinct : (entries.map Prod.fst).Nodup)
    {key : String} {value : α} : find? (ofList entries) key = some value ↔ (key, value) ∈ entries := by
  have added (table : Table α) : find? (entries.foldl (fun t e => insert t e.1 e.2) table) key =
      (find? entries key).or (find? table key) := by
    induction entries generalizing table with
    | nil => rfl
    | cons entry rest ih =>
      obtain ⟨k, v⟩ := entry
      obtain ⟨fresh, distinct⟩ := List.nodup_cons.1 distinct
      rw [List.foldl_cons, ih distinct, find?_insert, find?]
      split
      · next same =>
        -- The key of this entry is none of those after it.
        subst same
        have last : find? rest k = none := find?_eq_none fresh
        rw [last]
        rfl
      · rfl
  rw [ofList, added, find?_nil, Option.or_none, find?_eq_some_iff distinct]

/-- What is found in such a table is what is found in the list. -/
theorem find?_ofList_eq {entries : List (String × α)} (distinct : (entries.map Prod.fst).Nodup)
    (key : String) : find? (ofList entries) key = find? entries key :=
  Option.ext fun _ => (find?_ofList distinct).trans (find?_eq_some_iff distinct).symm

theorem insert_perm {table : Table α} {key : String} (fresh : key ∉ table.map Prod.fst)
    (value : α) :
    (insert table key value).Perm ((key, value) :: table) := by
  induction table with
  | nil => exact .refl _
  | cons entry rest ih =>
    obtain ⟨k, v⟩ := entry
    obtain ⟨other, fresh⟩ := not_or.1 (mt List.mem_cons.2 fresh)
    rw [insert, if_neg (Ne.symm other)]
    split
    · exact .refl _
    · exact ((ih fresh).cons _).trans (.swap _ _ _)

/-- A table of entries with pairwise distinct keys has these entries, in some order. -/
theorem ofList_perm {entries : List (String × α)} (distinct : (entries.map Prod.fst).Nodup) :
    (ofList entries).Perm entries := by
  suffices added : ∀ table : Table α, ((table ++ entries).map Prod.fst).Nodup →
      (entries.foldl (fun t e => insert t e.1 e.2) table).Perm (table ++ entries) from
    added [] distinct
  clear distinct
  induction entries with
  | nil =>
    intro table _
    rw [List.append_nil]
    exact .refl _
  | cons entry rest ih =>
    intro table distinct
    obtain ⟨k, v⟩ := entry
    have moved : (table ++ (k, v) :: rest).Perm ((k, v) :: table ++ rest) := List.perm_middle
    have distinct := (moved.map Prod.fst).nodup distinct
    have fresh : k ∉ table.map Prod.fst := by
      rw [List.cons_append, List.map_cons, List.map_append] at distinct
      exact fun member => (List.nodup_cons.1 distinct).1 (List.mem_append_left _ member)
    have grown := (insert_perm fresh v).append_right rest
    rw [List.foldl_cons]
    exact (ih _ ((grown.map Prod.fst).symm.nodup distinct)).trans (grown.trans moved.symm)

/-- Two tables in order in which the same is found are the same. -/
theorem Sorted.ext {table other : Table α} (sorted : Sorted table) (sorted' : Sorted other)
    (same : ∀ key, find? table key = find? other key) : table = other := by
  have mem (table : Table α) (sorted : Sorted table) (entry : String × α) :
      entry ∈ table ↔ find? table entry.1 = some entry.2 :=
    (find?_eq_some_iff sorted.nodup_keys).symm
  have perm : table.Perm other := by
    apply (List.perm_ext_iff_of_nodup (.of_map _ sorted.nodup_keys)
      (.of_map _ sorted'.nodup_keys)).2
    intro entry
    rw [mem table sorted, mem other sorted', same]
  refine perm.eq_of_pairwise (fun a b _ _ below above => ?_) sorted sorted'
  exact absurd below (String.lt_asymm above)

end Stepwise.Table

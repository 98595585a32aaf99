import Mathlib.Data.Finset.Card
import Stepwise.Proofs.Step.Naming

/-!
# The first free id

New ids are looked for one candidate after the other, with no bound to the search. It ends since
the candidates are all different, so the ids in use run out, and what it ends at is the first
candidate that is not in use. No other id comes into use, and no other counter moves.
-/

namespace Stepwise.Step

/-! ## The search -/

/-- A search that begins at one number ends at another one: it goes on from a candidate that is in
use, and ends at one that is not. -/
inductive Ends (used : List String) (candidate : Nat → String) : Nat → Nat → Prop where
  | free {n : Nat} (free : candidate n ∉ used) : Ends used candidate n n
  | next {n last : Nat} (taken : candidate n ∈ used) (rest : Ends used candidate (n + 1) last) :
    Ends used candidate n last

/-- The first number, from some number on, of a candidate that is not in use. -/
structure IsFirstFree (used : List String) (candidate : Nat → String) (start n : Nat) : Prop where
  start_le : start ≤ n
  free : candidate n ∉ used
  taken : ∀ k, start ≤ k → k < n → candidate k ∈ used

variable {used : List String} {candidate : Nat → String} {start n : Nat}

/-- A search comes to the first free candidate. -/
theorem Ends.isFirstFree (h : Ends used candidate start n) :
    IsFirstFree used candidate start n := by
  induction h with
  | free free => exact ⟨Nat.le_refl _, free, fun k le less => absurd less (Nat.not_lt.2 le)⟩
  | @next start last taken _ ih =>
    refine ⟨Nat.le_of_succ_le ih.start_le, ih.free, ?_⟩
    intro k le less
    by_cases first : k = start
    · rw [first]
      exact taken
    · exact ih.taken k (by omega) less

/-- If the candidates are all different, a search ends where it does within as many steps as there
are ids in use. -/
theorem ends_firstFree (injective : Function.Injective candidate) (used : List String)
    (start : Nat) :
    Ends used candidate start (firstFree used candidate start used.length) := by
  -- The bound on the steps counts for nothing but that what is found is free.
  have found := firstFree_notMem injective used start
  generalize used.length = steps at found
  induction steps generalizing start with
  | zero => exact .free found
  | succ steps ih =>
    rw [firstFree] at found ⊢
    by_cases taken : candidate start ∈ used
    · rw [if_pos (List.contains_iff_mem.2 taken)] at found ⊢
      exact .next taken (ih (start + 1) found)
    · rw [if_neg (fun h => taken (List.contains_iff_mem.1 h))]
      exact .free taken

/-- The candidates before the first free one are different ids in use. -/
theorem IsFirstFree.le (h : IsFirstFree used candidate start n)
    (injective : Function.Injective candidate) : n ≤ start + used.toFinset.card := by
  have distinct : ((List.range' start (n - start)).map candidate).Nodup :=
    List.Nodup.map injective List.nodup_range'
  have subset : ((List.range' start (n - start)).map candidate).toFinset ⊆ used.toFinset := by
    intro id member
    rw [List.mem_toFinset] at member ⊢
    obtain ⟨k, hk, rfl⟩ := List.mem_map.1 member
    rw [List.mem_range'_1] at hk
    exact h.taken k hk.1 (by omega)
  have card := Finset.card_le_card subset
  rw [List.toFinset_card_of_nodup distinct, List.length_map, List.length_range'] at card
  omega

namespace Naming

/-! ## New ids -/

/-- Between two namings an id has come into use that was free before, and no other one. -/
structure Adds (before : Naming) (id : String) (after : Naming) : Prop where
  free : id ∉ before.used
  mem_iff : ∀ other, other ∈ after.used ↔ other = id ∨ other ∈ before.used

/-- An id made up for a task: the first of the base alone, the base with 2, with 3 and so on that is
not in use. -/
structure NamesTask (before : Naming) (name id : String) (after : Naming) (n : Nat) : Prop where
  ends : Ends before.used (taskCandidate (idBase name)) 1 n
  first : IsFirstFree before.used (taskCandidate (idBase name)) 1 n
  id_eq : id = if n = 1 then idBase name else idBase name ++ "_" ++ toString n
  adds : before.Adds id after
  counters : ∀ kind, after.counter kind = before.counter kind

/-- An id made up for a block: its kind with the first number past the counter of the kind for which
it is not in use, and that is the counter from then on. -/
structure NamesBlock (before : Naming) (kind id : String) (after : Naming) (n : Nat) : Prop where
  ends : Ends before.used (blockCandidate kind) (before.counter kind + 1) n
  first : IsFirstFree before.used (blockCandidate kind) (before.counter kind + 1) n
  id_eq : id = kind ++ "_" ++ toString n
  adds : before.Adds id after
  counter : after.counter kind = n
  others : ∀ other, other ≠ kind → after.counter other = before.counter other

variable {naming : Naming}

theorem adds_cons {id : String} (free : id ∉ naming.used) (counters : Table Nat) :
    naming.Adds id ⟨id :: naming.used, counters⟩ :=
  ⟨free, fun _ => List.mem_cons⟩

theorem exists_namesTask (naming : Naming) (name : String) :
    ∃ n, naming.NamesTask name (naming.forTask name).1 (naming.forTask name).2 n := by
  have ends := ends_firstFree (taskCandidate_injective (idBase name)) naming.used 1
  exact ⟨_, ends, ends.isFirstFree, rfl, adds_cons ends.isFirstFree.free _, fun _ => rfl⟩

theorem exists_namesBlock (naming : Naming) (kind : String) :
    ∃ n, naming.NamesBlock kind (naming.forBlock kind).1 (naming.forBlock kind).2 n := by
  have ends := ends_firstFree (blockCandidate_injective kind) naming.used (naming.counter kind + 1)
  refine ⟨_, ends, ends.isFirstFree, rfl, adds_cons ends.isFirstFree.free _, ?_, ?_⟩
  · simp [forBlock, counter]
  · intro other apart
    simp [forBlock, counter, Table.find?_insert_of_ne _ _ apart.symm]

/-- Whatever ids are in use, the search for a new one ends at the first free candidate, which is
numbered no higher than the ids in use can push it, and nothing else comes into use. -/
theorem allocates_first_free (naming : Naming) :
    (∀ name, isNodeId (idBase name) = true ∧
      ∃ n, naming.NamesTask name (naming.forTask name).1 (naming.forTask name).2 n ∧
        n ≤ naming.used.toFinset.card + 1) ∧
      ∀ kind, ∃ n, naming.NamesBlock kind (naming.forBlock kind).1 (naming.forBlock kind).2 n ∧
        n ≤ naming.counter kind + naming.used.toFinset.card + 1 := by
  refine ⟨?_, ?_⟩
  · intro name
    obtain ⟨n, names⟩ := naming.exists_namesTask name
    have bound := names.first.le (taskCandidate_injective _)
    exact ⟨isNodeId_idBase name, n, names, by omega⟩
  · intro kind
    obtain ⟨n, names⟩ := naming.exists_namesBlock kind
    have bound := names.first.le (blockCandidate_injective kind)
    exact ⟨n, names, by omega⟩

end Naming

end Stepwise.Step

import Mathlib.Data.List.Forall2
import Mathlib.Data.List.Perm.Subperm
import Mathlib.Data.List.ReduceOption
import Std.Data.String.ToNat
import Stepwise.Step.Naming
import Stepwise.Proofs.Node.Tree

/-!
# New ids

A made-up id is well-formed and has not been in use before: its candidates are all different, so
one more of them than there are ids in use holds a free one. `Gives` says this of all the ids that
come about between two namings, and is closed under giving ids one after another.
-/

namespace Stepwise.Step

/-! ## Well-formed ids -/

theorem isNodeId_append {id text : String} (h : isNodeId id = true)
    (chars : ∀ c ∈ text.toList, Text.isNameChar c = true) : isNodeId (id ++ text) = true := by
  unfold isNodeId at h ⊢
  rw [String.toList_append]
  cases hid : id.toList with
  | nil =>
    rw [hid] at h
    cases h
  | cons c rest =>
    rw [hid] at h
    simp only [List.cons_append, List.all_append, Bool.and_eq_true] at h ⊢
    exact ⟨h.1, h.2, List.all_eq_true.2 chars⟩

theorem isNameChar_of_mem_toString {n : Nat} {c : Char} (h : c ∈ (toString n).toList) :
    Text.isNameChar c = true := by
  rw [Nat.toString_eq_repr, Nat.toList_repr] at h
  have digit : Text.isDigit c = true := by
    have digit := Nat.isDigit_of_mem_toDigits (by decide) (by decide) h
    simpa [Char.isDigit, Text.isDigit, Char.le_def] using digit
  simp only [Text.isNameChar, digit, Bool.or_true, Bool.true_or]

/-- A number after a well-formed id. -/
theorem isNodeId_numbered {id : String} (h : isNodeId id = true) (n : Nat) :
    isNodeId (id ++ "_" ++ toString n) = true := by
  have single : "_".toList = ['_'] := by decide
  refine isNodeId_append (isNodeId_append h fun c member => ?_) fun c => isNameChar_of_mem_toString
  rw [single, List.mem_singleton] at member
  rw [member]
  decide

/-- Whatever a task is called, its base is a well-formed id. -/
theorem isNodeId_idBase (name : String) : isNodeId (idBase name) = true := by
  have chars : ∀ c ∈ name.toList.map (fun c => if Text.isNameChar c then c else '_'),
      Text.isNameChar c = true := by
    intro c member
    obtain ⟨d, -, rfl⟩ := List.mem_map.1 member
    split
    · assumption
    · decide
  simp only [idBase]
  generalize name.toList.map (fun c => if Text.isNameChar c then c else '_') = text at chars
  cases text with
  | nil => decide
  | cons c rest =>
    dsimp only
    split
    · next first =>
      simp only [isNodeId, String.toList_ofList, first, Bool.true_and]
      exact List.all_eq_true.2 fun d member => chars d (List.mem_cons_of_mem _ member)
    · refine isNodeId_append (by decide) ?_
      rw [String.toList_ofList]
      exact chars

/-! ## Candidates -/

theorem blockCandidate_injective (kind : String) : Function.Injective (blockCandidate kind) := by
  intro m n h
  exact Nat.repr_injective ((String.append_right_inj _).1 h)

theorem taskCandidate_injective (base : String) : Function.Injective (taskCandidate base) := by
  -- A base with a number is longer than the base alone.
  have longer (n : Nat) : base ≠ base ++ "_" ++ toString n := by
    intro h
    have := congrArg String.length h
    simp only [String.length_append] at this
    have : "_".length = 1 := rfl
    omega
  intro m n h
  unfold taskCandidate at h
  split at h
  · split at h
    · omega
    · exact absurd h (longer n)
  · split at h
    · exact absurd h.symm (longer m)
    · exact Nat.repr_injective ((String.append_right_inj _).1 h)

/-- The search ends at a free candidate, or after it has met nothing but used ones. -/
theorem firstFree_cases (used : List String) (candidate : Nat → String) (n steps : Nat) :
    candidate (firstFree used candidate n steps) ∉ used ∨
      firstFree used candidate n steps = n + steps ∧
        ∀ k ∈ List.range' n steps, candidate k ∈ used := by
  induction steps generalizing n with
  | zero => exact .inr ⟨rfl, fun k member => absurd member List.not_mem_nil⟩
  | succ steps ih =>
    rw [firstFree]
    split
    · next taken =>
      rcases ih (n + 1) with free | ⟨last, all⟩
      · exact .inl free
      · refine .inr ⟨by omega, fun k member => ?_⟩
        rw [List.range'_succ, List.mem_cons] at member
        rcases member with rfl | member
        · exact List.contains_iff_mem.1 taken
        · exact all k member
    · next free => exact .inl fun member => free (List.contains_iff_mem.2 member)

/-- As many steps as there are used ids are enough to find a free candidate. -/
theorem firstFree_notMem {candidate : Nat → String} (injective : Function.Injective candidate)
    (used : List String) (n : Nat) :
    candidate (firstFree used candidate n used.length) ∉ used := by
  rcases firstFree_cases used candidate n used.length with free | ⟨last, all⟩
  · exact free
  · intro taken
    rw [last] at taken
    have distinct : ((List.range' n (used.length + 1)).map candidate).Nodup :=
      List.Nodup.map injective List.nodup_range'
    have subset : (List.range' n (used.length + 1)).map candidate ⊆ used := by
      intro id member
      obtain ⟨k, hk, rfl⟩ := List.mem_map.1 member
      rw [List.range'_concat, List.mem_append, List.mem_singleton, Nat.one_mul] at hk
      rcases hk with hk | rfl
      · exact all k hk
      · exact taken
    have := (List.subperm_of_subset distinct subset).length_le
    rw [List.length_map, List.length_range'] at this
    omega

/-! ## Namings -/

/-- An id that keeps to the one that a step gives itself, if it does. -/
def Keeps (own : Option String) (id : String) : Prop := ∀ given, own = some given → id = given

/-- Ids that come about between two namings, one for each step or sequence that needs one: they are
pairwise distinct, and each is either what a step gives itself or new and well-formed. -/
structure Naming.Issued (before : Naming) (own : List (Option String)) (ids : List String)
    (after : Naming) : Prop where
  nodup : ids.Nodup
  kept : List.Forall₂ Keeps own ids
  fresh : ∀ id ∈ ids, id ∈ own.reduceOption ∨ id ∉ before.used
  formed : ∀ id ∈ ids, id ∈ own.reduceOption ∨ isNodeId id = true
  taken : ∀ id ∈ ids, id ∈ own.reduceOption ∨ id ∈ after.used
  grows : before.used ⊆ after.used

/-- Ids come about if steps share no id with each other and all that they give themselves are
reserved. -/
def Naming.Gives (before : Naming) (own : List (Option String)) (ids : List String)
    (after : Naming) : Prop :=
  own.reduceOption.Nodup → own.reduceOption ⊆ before.used → before.Issued own ids after

namespace Naming

variable {before middle after : Naming} {own more : List (Option String)} {ids others : List String}

/-- Ids that come about later differ from those before. -/
theorem Issued.append (first : before.Issued own ids middle)
    (second : middle.Issued more others after) (distinct : (own ++ more).reduceOption.Nodup)
    (reserved : (own ++ more).reduceOption ⊆ before.used) :
    before.Issued (own ++ more) (ids ++ others) after := by
  rw [List.reduceOption_append] at distinct reserved
  have apart : ∀ id ∈ ids, ∀ other ∈ others, id ≠ other := by
    rintro id hid _ hother rfl
    rcases second.fresh id hother with hmore | hfree
    · rcases first.fresh id hid with hown | hfree
      · exact (List.nodup_append.1 distinct).2.2 id hown id hmore rfl
      · exact hfree (reserved (List.mem_append_right _ hmore))
    · rcases first.taken id hid with hown | htaken
      · exact hfree (first.grows (reserved (List.mem_append_left _ hown)))
      · exact hfree htaken
  refine ⟨List.nodup_append.2 ⟨first.nodup, second.nodup, apart⟩,
    List.rel_append first.kept second.kept, fun id member => ?_, fun id member => ?_,
    fun id member => ?_, List.Subset.trans first.grows second.grows⟩
  all_goals rw [List.reduceOption_append]
  · rcases List.mem_append.1 member with member | member
    · exact (first.fresh id member).imp_left (List.mem_append_left _)
    · refine (second.fresh id member).imp (List.mem_append_right _) fun free hused => ?_
      exact free (first.grows hused)
  · rcases List.mem_append.1 member with member | member
    · exact (first.formed id member).imp_left (List.mem_append_left _)
    · exact (second.formed id member).imp_left (List.mem_append_right _)
  · rcases List.mem_append.1 member with member | member
    · exact (first.taken id member).imp (List.mem_append_left _) (second.grows ·)
    · exact (second.taken id member).imp_left (List.mem_append_right _)

theorem Gives.andThen (first : before.Gives own ids middle)
    (second : middle.Gives more others after) :
    before.Gives (own ++ more) (ids ++ others) after := by
  intro distinct reserved
  have apart := distinct
  have used := reserved
  rw [List.reduceOption_append] at apart used
  have front := first apart.of_append_left fun id member => used (List.mem_append_left _ member)
  have back := second apart.of_append_right fun id member =>
    front.grows (used (List.mem_append_right _ member))
  exact front.append back distinct reserved

theorem gives_nil (naming : Naming) : naming.Gives [] [] naming :=
  fun _ _ => ⟨List.nodup_nil, .nil, nofun, nofun, nofun, List.Subset.refl _⟩

theorem gives_own (naming : Naming) (id : String) : naming.Gives [some id] [id] naming := by
  intro _ _
  have kept : Keeps (some id) id := fun _ same => Option.some.inj same
  exact ⟨List.nodup_singleton id, .cons kept .nil, fun _ => .inl, fun _ => .inl, fun _ => .inl,
    List.Subset.refl _⟩

/-- One new id. -/
theorem gives_new {id : String} (free : id ∉ before.used) (formed : isNodeId id = true)
    (used : after.used = id :: before.used) : before.Gives [none] [id] after := by
  intro _ _
  refine ⟨List.nodup_singleton id, .cons nofun .nil, fun other member => ?_,
    fun other member => ?_, fun other member => ?_, ?_⟩
  · cases List.mem_singleton.1 member
    exact .inr free
  · cases List.mem_singleton.1 member
    exact .inr formed
  · cases List.mem_singleton.1 member
    rw [used]
    exact .inr List.mem_cons_self
  · rw [used]
    exact List.subset_cons_self _ _

theorem gives_forTask (naming : Naming) (name : String) :
    naming.Gives [none] [(naming.forTask name).1] (naming.forTask name).2 := by
  refine gives_new (firstFree_notMem (taskCandidate_injective _) naming.used 1) ?_ rfl
  simp only [forTask, taskCandidate]
  split
  · exact isNodeId_idBase name
  · exact isNodeId_numbered (isNodeId_idBase name) _

theorem gives_forBlock (naming : Naming) (kind : String) (formed : isNodeId kind = true) :
    naming.Gives [none] [(naming.forBlock kind).1] (naming.forBlock kind).2 :=
  gives_new (firstFree_notMem (blockCandidate_injective kind) naming.used _)
    (isNodeId_numbered formed _) rfl

theorem gives_taskId (naming : Naming) (own : Option String) (name : String) :
    naming.Gives [own] [(naming.taskId own name).1] (naming.taskId own name).2 := by
  cases own with
  | none => exact naming.gives_forTask name
  | some id => exact naming.gives_own id

theorem gives_blockId (naming : Naming) (own : Option String) (kind : String)
    (formed : isNodeId kind = true) :
    naming.Gives [own] [(naming.blockId own kind).1] (naming.blockId own kind).2 := by
  cases own with
  | none => exact naming.gives_forBlock kind formed
  | some id => exact naming.gives_own id

end Naming

/-- Ids of which none is given twice. -/
theorem nodup_of_repeats {seen ids : List String} (h : repeats seen ids = []) :
    ids.Nodup ∧ ids.Disjoint seen := by
  induction ids generalizing seen with
  | nil => exact ⟨List.nodup_nil, List.disjoint_nil_left _⟩
  | cons id rest ih =>
    rw [repeats] at h
    split at h
    · cases h
    · next new =>
      obtain ⟨distinct, apart⟩ := ih h
      refine ⟨List.nodup_cons.2 ⟨fun member => ?_, distinct⟩, fun other member hseen => ?_⟩
      · exact apart member List.mem_cons_self
      · rcases List.mem_cons.1 member with rfl | member
        · exact new (List.contains_iff_mem.2 hseen)
        · exact apart member (List.mem_cons_of_mem _ hseen)

end Stepwise.Step

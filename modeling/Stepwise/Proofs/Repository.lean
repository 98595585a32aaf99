import Mathlib.Data.Finset.Card
import Stepwise.Repository

/-!
# Repositories after saves

After any saves a repository holds the last record of every execution and nothing else, one for
each execution id (`Keeps`). A save keeps to that, so all that is read of a repository can be told
from the saves: what is found under an id, how much there is, and what is listed of a workflow.
-/

namespace Stepwise

namespace Timestamp

/-- A point in time is not after another one. -/
def Upto (a b : Timestamp) : Prop :=
  a.seconds < b.seconds ∨ (a.seconds = b.seconds ∧ a.nanos ≤ b.nanos)

theorem upto_iff {a b : Timestamp} : a.Upto b ↔ b.isBefore a = false := by
  unfold Upto isBefore
  rw [Bool.or_eq_false_iff, Bool.and_eq_false_iff]
  simp only [decide_eq_false_iff_not]
  omega

theorem Upto.trans {a b c : Timestamp} (h : a.Upto b) (g : b.Upto c) : a.Upto c := by
  unfold Upto at *
  omega

theorem upto_total (a b : Timestamp) : a.Upto b ∨ b.Upto a := by
  unfold Upto
  omega

end Timestamp

namespace ExecutionRecord

/-- A record is the last one that was saved of its execution. -/
def IsLast (saves : List ExecutionRecord) (record : ExecutionRecord) : Prop :=
  ∃ before after, saves = before ++ record :: after ∧
    ∀ later ∈ after, later.executionId ≠ record.executionId

variable {saves : List ExecutionRecord} {record other : ExecutionRecord}

theorem IsLast.mem (h : IsLast saves record) : record ∈ saves := by
  obtain ⟨before, after, rfl, -⟩ := h
  exact List.mem_append_right before List.mem_cons_self

/-- After one more save its record is the last one of its execution, and the other executions have
the last records they had. -/
theorem isLast_append_singleton :
    IsLast (saves ++ [record]) other ↔
      other = record ∨ (IsLast saves other ∧ other.executionId ≠ record.executionId) := by
  constructor
  · rintro ⟨before, after, same, none⟩
    rcases List.eq_nil_or_concat after with rfl | ⟨front, last, rfl⟩
    · exact .inl (List.cons.inj (List.append_inj' same rfl).2).1.symm
    · rw [List.concat_eq_append] at same none
      rw [← List.cons_append, ← List.append_assoc] at same
      obtain ⟨hsaves, hlast⟩ := List.append_inj' same rfl
      obtain rfl := (List.cons.inj hlast).1
      refine .inr ⟨⟨before, front, hsaves, ?_⟩, ?_⟩
      · intro later member
        exact none later (List.mem_append_left _ member)
      · exact (none record (List.mem_append_right front (List.mem_singleton_self record))).symm
  · rintro (rfl | ⟨⟨before, after, rfl, none⟩, apart⟩)
    · exact ⟨saves, [], rfl, nofun⟩
    · refine ⟨before, after ++ [record], by simp, ?_⟩
      intro later member
      rcases List.mem_append.1 member with member | member
      · exact none later member
      · rw [List.mem_singleton.1 member]
        exact apart.symm

/-- Every execution of which something was saved has a last record. -/
theorem exists_isLast (h : record ∈ saves) :
    ∃ last, IsLast saves last ∧ last.executionId = record.executionId := by
  induction saves using List.reverseRecOn with
  | nil => exact absurd h List.not_mem_nil
  | append_singleton saves newest ih =>
    by_cases own : newest.executionId = record.executionId
    · exact ⟨newest, isLast_append_singleton.2 (.inl rfl), own⟩
    · rcases List.mem_append.1 h with member | member
      · obtain ⟨last, hlast, same⟩ := ih member
        have apart : last.executionId ≠ newest.executionId := fun h => own (h.symm.trans same)
        exact ⟨last, isLast_append_singleton.2 (.inr ⟨hlast, apart⟩), same⟩
      · exact absurd (congrArg executionId (List.mem_singleton.1 member)).symm own

end ExecutionRecord

namespace Repository

open ExecutionRecord (IsLast)

/-- The repository after some saves, from the first to the last. -/
def ofSaves (saves : List ExecutionRecord) : Repository := saves.foldl save .empty

/-- A repository has the last record of each execution, and no two of one execution. -/
structure Keeps (repository : Repository) (saves : List ExecutionRecord) : Prop where
  mem_iff : ∀ record, record ∈ repository.records ↔ IsLast saves record
  distinct : (repository.records.map ExecutionRecord.executionId).Nodup

variable {repository : Repository} {saves : List ExecutionRecord}

theorem mem_save {record other : ExecutionRecord} :
    other ∈ (repository.save record).records ↔
      other = record ∨ (other ∈ repository.records ∧ other.executionId ≠ record.executionId) := by
  rw [save, List.mem_append, List.mem_filter, List.mem_singleton, decide_eq_true_eq, or_comm]

/-- A save keeps to the last records. -/
theorem Keeps.save (keeps : repository.Keeps saves) (record : ExecutionRecord) :
    (repository.save record).Keeps (saves ++ [record]) where
  mem_iff := by
    intro other
    rw [mem_save, ExecutionRecord.isLast_append_singleton, keeps.mem_iff]
  distinct := by
    rw [Repository.save, List.map_append, List.nodup_append]
    refine ⟨?_, List.nodup_singleton _, ?_⟩
    · exact keeps.distinct.sublist (List.filter_sublist.map _)
    · -- What the save keeps of the records before it is of other executions.
      intro id hid _ hrecord
      obtain ⟨other, member, rfl⟩ := List.mem_map.1 hid
      rw [List.mem_singleton.1 hrecord]
      exact of_decide_eq_true (List.mem_filter.1 member).2

/-- A repository keeps to all saves. -/
theorem keeps_ofSaves (saves : List ExecutionRecord) : (ofSaves saves).Keeps saves := by
  induction saves using List.reverseRecOn with
  | nil =>
    refine ⟨?_, List.nodup_nil⟩
    intro record
    exact ⟨nofun, fun last => absurd last.mem List.not_mem_nil⟩
  | append_singleton saves record ih =>
    rw [ofSaves, List.foldl_concat]
    exact ih.save record

/-! ## What is read -/

theorem Keeps.get?_eq_some_iff (keeps : repository.Keeps saves) {executionId : String}
    {record : ExecutionRecord} :
    repository.get? executionId = some record ↔
      IsLast saves record ∧ record.executionId = executionId := by
  rw [get?, ← keeps.mem_iff]
  constructor
  · intro found
    exact ⟨List.mem_of_find?_eq_some found, by simpa using List.find?_some found⟩
  · rintro ⟨member, rfl⟩
    cases found : repository.records.find? (fun r => r.executionId = record.executionId) with
    | none => exact absurd (decide_eq_true rfl) (List.find?_eq_none.1 found record member)
    | some other =>
      have same : other.executionId = record.executionId := by simpa using List.find?_some found
      rw [List.inj_on_of_nodup_map keeps.distinct (List.mem_of_find?_eq_some found) member same]

theorem Keeps.size_eq (keeps : repository.Keeps saves) :
    repository.size = (saves.map ExecutionRecord.executionId).toFinset.card := by
  have ids : (repository.records.map ExecutionRecord.executionId).toFinset =
      (saves.map ExecutionRecord.executionId).toFinset := by
    ext id
    rw [List.mem_toFinset, List.mem_toFinset, List.mem_map, List.mem_map]
    constructor
    · rintro ⟨record, member, rfl⟩
      exact ⟨record, ((keeps.mem_iff record).1 member).mem, rfl⟩
    · rintro ⟨record, member, rfl⟩
      obtain ⟨last, hlast, same⟩ := ExecutionRecord.exists_isLast member
      exact ⟨last, (keeps.mem_iff last).2 hlast, same⟩
  rw [← ids, List.toFinset_card_of_nodup keeps.distinct, List.length_map, size]

/-- A list of the last records of a workflow: each of them, once, in the order of their times. -/
structure Lists (saves : List ExecutionRecord) (workflowId : String)
    (found : List ExecutionRecord) : Prop where
  mem_iff : ∀ record, record ∈ found ↔ IsLast saves record ∧ record.workflowId = workflowId
  once : (found.map ExecutionRecord.executionId).Nodup
  inOrder : found.Pairwise fun a b => a.recordedAt.Upto b.recordedAt

theorem Keeps.lists_ofWorkflow (keeps : repository.Keeps saves) (workflowId : String) :
    Lists saves workflowId (repository.ofWorkflow workflowId) where
  mem_iff := by
    intro record
    rw [ofWorkflow, List.mem_mergeSort, List.mem_filter, keeps.mem_iff, decide_eq_true_eq]
  once := by
    have perm := (repository.records.filter fun r => r.workflowId = workflowId).mergeSort_perm
      fun a b => !b.recordedAt.isBefore a.recordedAt
    refine ((perm.map ExecutionRecord.executionId).nodup_iff).2 ?_
    exact keeps.distinct.sublist (List.filter_sublist.map _)
  inOrder := by
    have upto (a b : ExecutionRecord) :
        (!b.recordedAt.isBefore a.recordedAt) = true ↔ a.recordedAt.Upto b.recordedAt := by
      rw [Bool.not_eq_true', Timestamp.upto_iff]
    refine List.Pairwise.imp (fun {a b} le => (upto a b).1 le) (List.pairwise_mergeSort ?_ ?_ _)
    · intro a b c hab hbc
      rw [upto] at *
      exact hab.trans hbc
    · intro a b
      rw [Bool.or_eq_true, upto, upto]
      exact Timestamp.upto_total _ _

/-- After any saves a repository finds the last record of each execution, has as many records as
there are executions, and lists the last records of each workflow by their times. -/
theorem reads_last (saves : List ExecutionRecord) :
    (∀ executionId record, (ofSaves saves).get? executionId = some record ↔
      IsLast saves record ∧ record.executionId = executionId) ∧
      (ofSaves saves).size = (saves.map ExecutionRecord.executionId).toFinset.card ∧
      ∀ workflowId, Lists saves workflowId ((ofSaves saves).ofWorkflow workflowId) := by
  have keeps := keeps_ofSaves saves
  refine ⟨?_, keeps.size_eq, keeps.lists_ofWorkflow⟩
  intro executionId record
  exact keeps.get?_eq_some_iff

end Repository

end Stepwise

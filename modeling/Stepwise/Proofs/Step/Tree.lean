import Stepwise.Proofs.Step.Naming
import Stepwise.Proofs.Step.Reading
import Stepwise.Step.Tree

/-!
# Ids of trees

The nodes that are made of steps have pairwise distinct, well-formed ids, and a step that gives
itself an id becomes a node of that id: `parse_ids`. The proof follows the way in which a tree is
built; every id that a step gives itself is reserved before, so no made-up id meets one of them.
-/

namespace Stepwise

namespace Node

@[simp] theorem ids_withBranch (node : Node) (branch : Branch) :
    (node.withBranch branch).ids = node.ids := by
  rw [ids_eq, ids_eq]
  rfl

@[simp] theorem idsAll_map_withBranch (nodes : List Node) (branch : Branch) :
    idsAll (nodes.map (·.withBranch branch)) = idsAll nodes := by
  induction nodes with
  | nil => rfl
  | cons node rest ih => rw [List.map_cons, idsAll_cons, ids_withBranch, ih, idsAll_cons]

end Node

namespace Step

theorem idsAll_wrap (wrapper : Option String) (nodes : List Node) :
    Node.idsAll (wrap wrapper nodes) = wrapper.toList ++ Node.idsAll nodes := by
  cases wrapper with
  | none => rfl
  | some id =>
    rw [wrap, Node.idsAll_cons, Node.idsAll_nil, List.append_nil, Node.ids_eq]
    rfl

/-! ## Ids that are given -/

theorem gives_wrapperId (naming : Naming) (steps : List Step) :
    naming.Gives (enclosure steps) (naming.wrapperId steps).1.toList
      (naming.wrapperId steps).2 := by
  match steps with
  | [] => exact naming.gives_nil
  | [_] => exact naming.gives_nil
  | _ :: _ :: _ => exact naming.gives_forBlock "sequence" (by decide)

mutual

theorem gives_build (naming : Naming) (step : Step) :
    naming.Gives (owns step) (build naming step).1.ids (build naming step).2 := by
  cases step with
  | task head spec => exact (naming.gives_taskId head.id spec.task).andThen (Naming.gives_nil _)
  | sequence head steps =>
    rw [Node.ids_eq]
    exact (naming.gives_blockId head.id "sequence" (by decide)).andThen (gives_buildAll _ steps)
  | parallel head spec steps =>
    rw [Node.ids_eq]
    exact (naming.gives_blockId head.id "parallel" (by decide)).andThen (gives_buildAll _ steps)
  | condition head text yes no =>
    rw [Node.ids_eq, build]
    simp only [Node.idsAll_append, Node.idsAll_map_withBranch, idsAll_wrap]
    have own := naming.gives_blockId head.id "condition" (by decide)
    exact own.andThen ((gives_branch _ yes).andThen (gives_branch _ no))
  | loop head spec body =>
    rw [Node.ids_eq]
    exact (naming.gives_blockId head.id "loop" (by decide)).andThen (gives_buildAll _ body)
  | wait head spec =>
    exact (naming.gives_blockId head.id "wait" (by decide)).andThen (Naming.gives_nil _)

/-- The nodes of a branch, with a sequence around them if there are several. -/
theorem gives_branch (naming : Naming) (steps : List Step) :
    naming.Gives (enclosure steps ++ ownsAll steps)
      ((naming.wrapperId steps).1.toList ++
        Node.idsAll (buildAll (naming.wrapperId steps).2 steps).1)
      (buildAll (naming.wrapperId steps).2 steps).2 :=
  (gives_wrapperId naming steps).andThen (gives_buildAll _ steps)

theorem gives_buildAll (naming : Naming) (steps : List Step) :
    naming.Gives (ownsAll steps) (Node.idsAll (buildAll naming steps).1)
      (buildAll naming steps).2 := by
  cases steps with
  | nil => exact naming.gives_nil
  | cons step rest => exact (gives_build naming step).andThen (gives_buildAll _ rest)

end

/-- The root is a step, or a sequence around several. -/
theorem gives_tree (naming : Naming) (first : Step) (rest : List Step) :
    ∃ after, naming.Gives (enclosure (first :: rest) ++ ownsAll (first :: rest))
      (tree naming first rest).ids after := by
  cases rest with
  | nil =>
    refine ⟨(build naming first).2, ?_⟩
    rw [ownsAll, ownsAll, List.append_nil]
    exact gives_build naming first
  | cons second rest =>
    refine ⟨(buildAll (naming.forBlock "sequence").2 (first :: second :: rest)).2, ?_⟩
    rw [Node.ids_eq]
    exact gives_branch naming (first :: second :: rest)

/-! ## Lists of steps -/

/-- A list that is read has no id twice and no faulty step. -/
theorem parse_ok {steps : List Json} {root : Node} (h : parse steps = .ok root) :
    ∃ first rest, (reservedAll steps).Nodup ∧ readAll "steps" 0 steps = .ok (first :: rest) ∧
      root = tree (.reserving (reservedAll steps)) first rest := by
  simp only [parse] at h
  split at h
  · next first rest none hread =>
    cases h
    have distinct := (nodup_of_repeats (List.map_eq_nil_iff.1 none)).1
    exact ⟨first, rest, distinct, hread, rfl⟩
  · cases h
  · cases h
  · cases h

/-- An id as it is written: a letter or `_`, then letters, digits, `_` and `-`. -/
def WellFormed (id : String) : Prop :=
  ∃ first rest, id.toList = first :: rest ∧
    (('A' ≤ first ∧ first ≤ 'Z') ∨ ('a' ≤ first ∧ first ≤ 'z') ∨ first = '_') ∧
    ∀ c ∈ rest, ('A' ≤ c ∧ c ≤ 'Z') ∨ ('a' ≤ c ∧ c ≤ 'z') ∨ ('0' ≤ c ∧ c ≤ '9') ∨ c = '_' ∨ c = '-'

theorem wellFormed_of_isNodeId {id : String} (h : isNodeId id = true) : WellFormed id := by
  unfold isNodeId at h
  split at h
  · cases h
  · next first rest split =>
    simp only [Bool.and_eq_true, List.all_eq_true] at h
    obtain ⟨start, others⟩ := h
    refine ⟨first, rest, split, ?_, fun c member => ?_⟩
    · simp only [Text.isLetter, Bool.or_eq_true, Bool.and_eq_true, decide_eq_true_eq,
        beq_iff_eq] at start
      tauto
    · have name := others c member
      simp only [Text.isNameChar, Text.isLetter, Text.isDigit, Bool.or_eq_true, Bool.and_eq_true,
        decide_eq_true_eq, beq_iff_eq] at name
      tauto

/-- The node that a step becomes has the id that the step gives itself. -/
def KeepsId (mark : Option Json) (node : Node) : Prop :=
  ∀ step id, mark = some step → explicitId step = some id → node.id = id

theorem nodup_ids_of_parse {steps : List Json} {root : Node} (h : parse steps = .ok root) :
    root.ids.Nodup := by
  obtain ⟨first, rest, distinct, hread, rfl⟩ := parse_ok h
  have lists := (lists_enclosure hread).append (lists_readAll (fun _ _ _ _ => lists_read) hread)
  have kept : (explicitIds (outlineTree steps)).Sublist (reservedAll steps) := by
    rw [outlineTree, explicitIds_append, explicitIds_enclosure, List.nil_append]
    exact sublist_reservedAll fun item _ => sublist_reserved item
  rw [explicitIds, outlineTree, lists.ids] at kept
  obtain ⟨after, gives⟩ := gives_tree (.reserving (reservedAll steps)) first rest
  exact (gives (distinct.sublist kept) kept.subset).nodup

/-- A tree that is read has pairwise distinct, well-formed ids. Its nodes are the steps of the
outline in their order, with the ids that these give themselves. -/
theorem parse_ids {steps : List Json} {root : Node} (h : parse steps = .ok root) :
    root.ids.Nodup ∧ (∀ id ∈ root.ids, WellFormed id) ∧
      List.Forall₂ KeepsId (outlineTree steps) root.preorder := by
  obtain ⟨first, rest, distinct, hread, rfl⟩ := parse_ok h
  have lists : Lists (outlineTree steps) (enclosure (first :: rest) ++ ownsAll (first :: rest)) :=
    (lists_enclosure hread).append (lists_readAll (fun _ _ _ _ => lists_read) hread)
  have kept : (explicitIds (outlineTree steps)).Sublist (reservedAll steps) := by
    rw [outlineTree, explicitIds_append, explicitIds_enclosure, List.nil_append]
    exact sublist_reservedAll fun item _ => sublist_reserved item
  rw [explicitIds, lists.ids] at kept
  obtain ⟨after, gives⟩ := gives_tree (.reserving (reservedAll steps)) first rest
  have issued := gives (distinct.sublist kept) kept.subset
  refine ⟨issued.nodup, fun id member => ?_, ?_⟩
  · rcases issued.formed id member with own | formed
    · exact wellFormed_of_isNodeId (lists.formed id (List.reduceOption_mem_iff.1 own))
    · exact wellFormed_of_isNodeId formed
  · have keeps := issued.kept
    rw [← lists.ids, Node.ids, List.forall₂_map_left_iff, List.forall₂_map_right_iff] at keeps
    refine keeps.imp ?_
    rintro _ node keeps step id rfl given
    exact keeps id given

/-- Two tasks of one name, one of them in a block that has this name as its id. -/
def fetches : List Json :=
  [.obj [("task", .str "fetch")],
    .obj [("id", .str "fetch"), ("sequence", .arr [.obj [("task", .str "fetch")]])]]

/-- A tree whose ids have to make way for one that is given. -/
def fetched : Node :=
  let fetch (id : String) := Node.make id (.task ⟨"fetch", [], [], 0, none, none⟩) []
  .make "sequence_1" .sequence [fetch "fetch_2", .make "fetch" .sequence [fetch "fetch_3"]]

theorem parse_ids_fetches : parse fetches = .ok fetched ∧ fetched.ids.Nodup ∧
    (∀ id ∈ fetched.ids, WellFormed id) ∧
      List.Forall₂ KeepsId (outlineTree fetches) fetched.preorder := by
  have read : parse fetches = .ok fetched := by cbv
  exact ⟨read, parse_ids read⟩

end Step

end Stepwise

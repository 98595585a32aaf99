import Stepwise.Proofs.Plan.Predecessors
import Stepwise.Proofs.Step.Shape
import Stepwise.Validation

/-!
# Plans cover trees

Nothing of a tree that is read from steps is lost in its plan, and nothing is planned twice. The
stages hold the nodes that do or decide something, whatever blocks these stand in, and no stage is
empty: both hold of stages one after another and of stages side by side (`Covers`). The graph of
predecessors has one entry for each node, which never lists the node itself (`plan_covers`).
-/

namespace Stepwise

namespace Plan

variable {left right : List Stage} {ids more : List String} {root node m : Node}
  {nodes : List Node} {id : String}

/-! ## Stages -/

/-- Some stages hold some ids, each as often as it is listed, and none of them is empty. -/
structure Covers (stages : List Stage) (ids : List String) : Prop where
  perm : stages.flatten.Perm ids
  full : ∀ stage ∈ stages, stage ≠ []

theorem Covers.nil : Covers [] [] := ⟨.refl _, nofun⟩

theorem Covers.cons (h : Covers right ids) (id : String) : Covers ([id] :: right) (id :: ids) := by
  refine ⟨h.perm.cons id, ?_⟩
  rw [List.forall_mem_cons]
  exact ⟨List.cons_ne_nil _ _, h.full⟩

theorem Covers.append (first : Covers left ids) (second : Covers right more) :
    Covers (left ++ right) (ids ++ more) := by
  refine ⟨?_, List.forall_mem_append.2 ⟨first.full, second.full⟩⟩
  rw [List.flatten_append]
  exact first.perm.append second.perm

theorem flatten_beside (left right : List Stage) :
    (beside left right).flatten.Perm (left.flatten ++ right.flatten) := by
  fun_induction beside left right with
  | case1 right => exact .refl _
  | case2 left => rw [List.flatten_nil, List.append_nil]
  | case3 a left b right ih =>
    -- The first stage of the right goes in front of what is left of the left.
    have moved : (b ++ (left.flatten ++ right.flatten)).Perm
        (left.flatten ++ (b ++ right.flatten)) := by
      rw [← List.append_assoc, ← List.append_assoc]
      exact List.perm_append_comm.append_right _
    simp only [List.flatten_cons, List.append_assoc]
    exact ((ih.append_left b).trans moved).append_left a

theorem forall_mem_beside {P : Stage → Prop} (h : ∀ a b, P a → P b → P (a ++ b))
    (hleft : ∀ stage ∈ left, P stage) (hright : ∀ stage ∈ right, P stage) :
    ∀ stage ∈ beside left right, P stage := by
  fun_induction beside left right with
  | case1 right => exact hright
  | case2 left => exact hleft
  | case3 a left b right ih =>
    rw [List.forall_mem_cons] at hleft hright ⊢
    exact ⟨h a b hleft.1 hright.1, ih hleft.2 hright.2⟩

theorem Covers.beside (first : Covers left ids) (second : Covers right more) :
    Covers (beside left right) (ids ++ more) := by
  refine ⟨(flatten_beside left right).trans (first.perm.append second.perm), ?_⟩
  refine forall_mem_beside ?_ first.full second.full
  intro a b nonempty _
  exact List.append_ne_nil_of_left_ne_nil nonempty b

/-- The ids of those of some nodes that do or decide something. -/
def actors (nodes : List Node) : List String := (nodes.filter (·.kind.acts)).map Node.id

theorem actors_append (front back : List Node) :
    actors (front ++ back) = actors front ++ actors back := by
  rw [actors, List.filter_append, List.map_append]
  rfl

theorem actors_preorder (node : Node) : actors node.preorder =
    (if node.kind.acts then [node.id] else []) ++ actors (Node.preorderAll node.children) := by
  rw [Node.preorder_eq, actors, List.filter_cons]
  split
  · rfl
  · rfl

theorem covers_inTurn (each : ∀ node ∈ nodes, Covers (stages node) (actors node.preorder)) :
    Covers (stagesInTurn nodes) (actors (Node.preorderAll nodes)) := by
  induction nodes with
  | nil => exact .nil
  | cons node rest ih =>
    rw [List.forall_mem_cons] at each
    rw [stagesInTurn, Node.preorderAll, actors_append]
    exact each.1.append (ih each.2)

theorem covers_sideBySide (each : ∀ node ∈ nodes, Covers (stages node) (actors node.preorder)) :
    Covers (stagesSideBySide nodes) (actors (Node.preorderAll nodes)) := by
  induction nodes with
  | nil => exact .nil
  | cons node rest ih =>
    rw [List.forall_mem_cons] at each
    rw [stagesSideBySide, Node.preorderAll, actors_append]
    exact each.1.beside (ih each.2)

/-- The stages of a tree hold its tasks, waits and conditions, each once for every node. -/
theorem covers_stages (leafy : node.Leafy) : Covers (stages node) (actors node.preorder) := by
  induction node using Node.induction with
  | step node ih =>
    have each : ∀ child ∈ node.children, Covers (stages child) (actors child.preorder) :=
      fun child member =>
        ih child member (leafy.mono (Node.mem_preorder_of_child member child.mem_preorder_self))
    rw [actors_preorder]
    cases staged node with
    | works works acts eq =>
      rw [eq, acts, leafy node node.mem_preorder_self works]
      exact Covers.nil.cons node.id
    | inTurn quiet eq =>
      rw [eq, quiet]
      exact covers_inTurn each
    | sideBySide quiet eq =>
      rw [eq, quiet]
      exact covers_sideBySide each
    | decides acts eq =>
      rw [eq, acts]
      exact (covers_sideBySide each).cons node.id

/-! ## Predecessors -/

/-- What a node comes after by its place is another node of the tree. -/
theorem mem_ids_of_follows (distinct : root.ids.Nodup) (h : root.Follows m id) :
    id ∈ root.ids ∧ id ≠ m.id := by
  cases h with
  | @sibling n before front back inside turn split =>
    have member : before ∈ n.children := by
      rw [split]
      exact List.mem_append_right _ List.mem_cons_self
    have apart := Node.nodup_child_ids (Node.nodup_ids_of_mem_preorder distinct inside)
    rw [split, List.map_append, List.map_cons, List.map_cons] at apart
    have other := (List.nodup_cons.1 (List.nodup_append.1 apart).2.1).1
    refine ⟨?_, fun same => other (same ▸ List.mem_cons_self)⟩
    exact Node.ids_subset_of_mem_preorder inside
      (Node.ids_child_subset member before.mem_ids_self)
  | @parent n inside member =>
    have below := Node.id_notMem_children (Node.nodup_ids_of_mem_preorder distinct inside)
    refine ⟨Node.ids_subset_of_mem_preorder inside n.mem_ids_self, fun same => below ?_⟩
    rw [same]
    exact Node.idsAll_subset member m.mem_ids_self

/-- The root comes after nothing by its place. -/
theorem ne_root_of_follows (distinct : root.ids.Nodup) (h : root.Follows m id) :
    m.id ≠ root.id := by
  have below : m.id ∈ Node.idsAll root.children := by
    cases h with
    | @sibling n before front back inside turn split =>
      refine Node.id_mem_idsAll_children inside ?_
      rw [split]
      exact List.mem_append_right _ (List.mem_cons_of_mem _ List.mem_cons_self)
    | @parent n inside member => exact Node.id_mem_idsAll_children inside member
  exact fun same => Node.id_notMem_children distinct (same ▸ below)

theorem nodup_eraseDups (list : List String) : list.eraseDups.Nodup := by
  cases list with
  | nil => exact List.nodup_nil
  | cons first rest =>
    rw [List.eraseDups_cons]
    exact List.nodup_cons.2 ⟨by simp, nodup_eraseDups (rest.filter fun other => !other == first)⟩
termination_by list.length
decreasing_by exact Nat.lt_succ_of_le (List.length_filter_le _ _)

theorem nodup_references (kind : Kind) : kind.references.Nodup := by
  cases kind with
  | task spec => exact nodup_eraseDups _
  | sequence | parallel spec | condition text | loop spec | wait spec => exact List.nodup_nil

/-- No node is listed twice, although references may be to what stands before. -/
theorem nodup_predecessorsOf (known : List String) (before : Option String) (id : String)
    (kind : Kind) : (predecessorsOf known before id kind).Nodup := by
  have rest := (nodup_references kind).filter
    (fun r => r ≠ id && known.contains r && !before.toList.contains r)
  refine List.nodup_append.2 ⟨before.toList_nodup, rest, ?_⟩
  rintro p front _ member rfl
  have apart := (List.mem_filter.1 member).2
  simp [front] at apart

/-- A tree of one task has nothing to refer to but the task, and other roots refer to nothing. -/
theorem predecessorsOf_root (leafy : root.Leafy) :
    predecessorsOf root.ids none root.id root.kind = [] := by
  refine List.eq_nil_iff_forall_not_mem.2 fun p member => ?_
  rcases mem_predecessorsOf.1 member with before | ⟨refers, other, known⟩
  · cases before
  · cases kind : root.kind with
    | task spec =>
      have none := leafy root root.mem_preorder_self (by rw [kind]; rfl)
      rw [Node.ids_eq, none] at known
      exact other (List.mem_singleton.1 known)
    | sequence | parallel spec | condition text | loop spec | wait spec =>
      rw [kind] at refers
      cases refers

/-- What an entry of the graph lists: other nodes of the tree, none twice, and no node only for the
root. -/
structure EntryFits (root : Node) (id : String) (ids : List String) : Prop where
  distinct : ids.Nodup
  known : ids ⊆ root.ids
  other : id ∉ ids
  root : ids = [] ↔ id = root.id

theorem entryFits (distinct : root.ids.Nodup) (leafy : root.Leafy)
    (h : (id, ids) ∈ predecessorList root.ids none root) : EntryFits root id ids := by
  rcases mem_predecessorList h with own | ⟨m, inside, before, follows, own⟩
  · obtain ⟨rfl, rfl⟩ := Prod.mk.inj own
    rw [predecessorsOf_root leafy]
    exact ⟨List.nodup_nil, List.nil_subset _, List.not_mem_nil, by simp⟩
  · obtain ⟨rfl, rfl⟩ := Prod.mk.inj own
    obtain ⟨known, other⟩ := mem_ids_of_follows distinct follows
    refine ⟨nodup_predecessorsOf _ _ _ _, fun p member => ?_, fun member => ?_, ?_⟩
    · rcases mem_predecessorsOf.1 member with same | ⟨-, -, known⟩
      · exact Option.some.inj same ▸ known
      · exact known
    · rcases mem_predecessorsOf.1 member with same | ⟨-, apart, -⟩
      · exact other (Option.some.inj same)
      · exact apart rfl
    · have listed : predecessorsOf root.ids (some before) m.id m.kind ≠ [] :=
        List.ne_nil_of_mem (mem_predecessorsOf.2 (.inl rfl))
      exact iff_of_false listed (ne_root_of_follows distinct follows)

/-! ## Trees that are read -/

open Step in
/-- Nothing is below a task or a wait that is made of a step. -/
theorem children_of_works {step : Option Json} (h : Stands step node)
    (works : node.kind.works = true) : node.children = [] := by
  have type : node.kind.nodeType = .task ∨ node.kind.nodeType = .wait := by
    cases kind : node.kind with
    | task spec => exact .inl rfl
    | wait spec => exact .inr rfl
    | sequence | parallel spec | condition text | loop spec => rw [kind] at works; cases works
  have decided (condition : node.kind.nodeType = .condition) : node.children = [] := by
    rw [condition] at type
    rcases type with type | type <;> cases type
  cases step with
  | none =>
    obtain ⟨sequence, -⟩ := h
    rw [sequence] at works
    cases works
  | some json =>
    cases (show MadeOf json node from h) with
    | @block members _ hastype other each untagged =>
      have nothing : stepsUnder members node.kind.nodeType = [] := by
        rcases type with type | type <;> rw [type] <;> rfl
      rw [nothing] at each
      exact List.forall₂_nil_left_iff.1 each
    | oneBranch _ condition => exact decided condition
    | twoBranches _ condition => exact decided condition

theorem leafy_of_parse {steps : List Json} (h : Step.parse steps = .ok root) : root.Leafy := by
  intro n inside works
  obtain ⟨step, -, stands⟩ := Step.exists_of_mem_right (Step.forall₂_stands h) inside
  exact children_of_works stands works

end Plan

namespace Checker

open Plan

/-- Whatever a tree that is read from steps is checked against, its plan covers it: the stages hold
the ids of its tasks, waits and conditions, each once, and none is empty; and the graph of
predecessors has one entry for each node, with other nodes of the tree, none twice, and with no node
for the root only. -/
theorem plan_covers {steps : List Json} {root : Node} (h : Step.parse steps = .ok root)
    (checker : Checker) : root.ids.Nodup ∧
      (checker.validate root).stages.flatten.Perm
        ((root.preorder.filter (·.kind.acts)).map Node.id) ∧
      (∀ stage ∈ (checker.validate root).stages, stage ≠ []) ∧
      (checker.validate root).predecessors.keys.Perm root.ids ∧
      ∀ id ids, (id, ids) ∈ (checker.validate root).predecessors →
        ids.Nodup ∧ ids ⊆ root.ids ∧ id ∉ ids ∧ (ids = [] ↔ id = root.id) := by
  have distinct := Step.nodup_ids_of_parse h
  have leafy := leafy_of_parse h
  have stages := covers_stages leafy
  have keys := keys_predecessorList root.ids none root
  have graph : (checker.validate root).predecessors.Perm (predecessorList root.ids none root) :=
    Table.ofList_perm (keys.symm ▸ distinct)
  refine ⟨distinct, stages.perm, stages.full, ?_, fun id ids entry => ?_⟩
  · rw [← keys]
    exact graph.map Prod.fst
  · have fits := entryFits distinct leafy (graph.mem_iff.1 entry)
    exact ⟨fits.distinct, fits.known, fits.other, fits.root⟩

/-- A task, and one that asks for its result. -/
def relay : List Json :=
  [.obj [("task", .str "a")],
    .obj [("task", .str "b"), ("parameters", .obj [("x", .str "$\x7bresult.a\x7d")])]]

/-- Two tasks in turn, of which the second takes the result of the first. -/
def relayed : Node :=
  let task (name : String) (parameters : Table Json) :=
    Node.make name (.task ⟨name, [], parameters, 0, none, none⟩) []
  .make "sequence_1" .sequence [task "a" [], task "b" [("x", .str "$\x7bresult.a\x7d")]]

theorem plan_covers_relay : Step.parse relay = .ok relayed ∧
    (validate ⟨.standard, .unrestricted⟩ relayed).stages.flatten.Perm ["a", "b"] ∧
    (validate ⟨.standard, .unrestricted⟩ relayed).predecessors.keys.Perm ["sequence_1", "a", "b"] := by
  have read : Step.parse relay = .ok relayed := by cbv
  obtain ⟨-, stages, -, keys, -⟩ := plan_covers read ⟨.standard, .unrestricted⟩
  exact ⟨read, stages, keys⟩

end Checker

end Stepwise

import Mathlib.Algebra.Group.Nat.Defs
import Stepwise.Run.Start
import Stepwise.Proofs.Node.Tree

/-!
# Allowances

A tariff says what the steps of a run cost. A node that starts has an allowance for what may come:
the attempts of a task or the turns of the children of a block, and whatever the children are
allowed, as often as the node may start each of them. What waits has the allowance that is left. If
only the calls of one task cost something and ids are distinct, the allowance of a tree is the
product of the attempts of the task and the rounds of the loops around it: `Node.allowance_eq_prod`.
-/

namespace Stepwise

open Run (attempts maxRounds)

/-- What the steps of a run cost: a call in the name of a node, the wait for its answer, the pause
before the next attempt, and the turn of a child of a block. -/
structure Tariff where
  call : String → Nat
  answer : Nat
  pause : Nat
  turn : Nat

namespace Tariff

/-- An attempt of a task is a call with the waits that may come of it. -/
def attempt (tariff : Tariff) (id : String) : Nat := tariff.call id + tariff.answer + tariff.pause

/-- Only the calls in the name of one node cost something. -/
def ofCalls (id : String) : Tariff := ⟨fun caller => if caller = id then 1 else 0, 0, 0, 0⟩

/-- Only the turns of children cost something. -/
def ofTurns : Tariff := ⟨fun _ => 0, 0, 0, 1⟩

/-- Whatever a ticket is given out for costs the same, but for the looks of a wait. -/
def ofWaits : Tariff := ⟨fun _ => 0, 1, 1, 1⟩

end Tariff

namespace Node

/-- The rounds that a loop may have. -/
def rounds? (engine : Engine) (node : Node) : Option Nat :=
  match node.kind with
  | .loop spec => some (maxRounds engine spec)
  | _ => none

/-- How often a node may start each of its children when it starts itself. -/
def turns (engine : Engine) (node : Node) : Nat := (node.rounds? engine).getD 1

/-- What a node may have to pay itself when it starts. -/
def dues (tariff : Tariff) (node : Node) : Nat :=
  match node.kind with
  | .task spec => attempts spec * tariff.attempt node.id
  | .parallel _ => node.children.length * tariff.turn
  | _ => 0

mutual

/-- What may have to be paid when a node starts. -/
def allowance (engine : Engine) (tariff : Tariff) (node : Node) : Nat :=
  match node with
  | ⟨id, kind, children, branch, tags⟩ =>
    let node : Node := ⟨id, kind, children, branch, tags⟩
    node.dues tariff + node.turns engine * allowanceAll engine tariff children

/-- What may have to be paid when some nodes start, each once. -/
def allowanceAll (engine : Engine) (tariff : Tariff) : List Node → Nat
  | [] => 0
  | node :: rest => allowance engine tariff node + allowanceAll engine tariff rest

end

/-- The allowance of a node is what it owes itself and that of its children in each of its rounds.
-/
theorem allowance_eq (engine : Engine) (tariff : Tariff) (node : Node) :
    node.allowance engine tariff =
      node.dues tariff + node.turns engine * allowanceAll engine tariff node.children := by
  cases node
  rfl

/-- The nodes of a tree that have a node of an id below them. -/
def above (id : String) (root : Node) : List Node :=
  root.preorder.filter (fun node => id ∈ idsAll node.children)

variable {engine : Engine} {tariff : Tariff} {id : String} {node : Node}

/-- A node pays for the calls of a task only if it is that task. -/
theorem dues_ofCalls_of_ne (h : node.id ≠ id) : node.dues (.ofCalls id) = 0 := by
  have free : (Tariff.ofCalls id).attempt node.id = 0 := if_neg h
  unfold dues
  split
  · rw [free, Nat.mul_zero]
  · exact Nat.mul_zero _
  · rfl

theorem allowanceAll_eq_zero {nodes : List Node}
    (each : ∀ node ∈ nodes, node.allowance engine tariff = 0) :
    allowanceAll engine tariff nodes = 0 := by
  induction nodes with
  | nil => rfl
  | cons first rest ih =>
    rw [allowanceAll, each first List.mem_cons_self,
      ih fun n member => each n (List.mem_cons_of_mem _ member)]

/-- A tree has no calls to make for a task that is not in it. -/
theorem allowance_of_notMem (h : id ∉ node.ids) : node.allowance engine (.ofCalls id) = 0 := by
  induction node using Node.induction with
  | step node ih =>
    have own : node.id ≠ id := fun same => h (same ▸ node.mem_ids_self)
    have below := allowanceAll_eq_zero fun child member =>
      ih child member fun inside => h (ids_child_subset member inside)
    rw [allowance_eq, dues_ofCalls_of_ne own, below, Nat.mul_zero]

theorem allowanceAll_append (engine : Engine) (tariff : Tariff) (nodes more : List Node) :
    allowanceAll engine tariff (nodes ++ more) =
      allowanceAll engine tariff nodes + allowanceAll engine tariff more := by
  induction nodes with
  | nil => simp [allowanceAll]
  | cons first rest ih => simp only [List.cons_append, allowanceAll, ih, Nat.add_assoc]

/-- Nothing in a tree stands above what is not in it. -/
theorem above_of_notMem (h : id ∉ idsAll node.children) : node.above id = [] := by
  rw [above, List.filter_eq_nil_iff]
  intro n member below
  obtain ⟨child, hchild, hid⟩ := mem_idsAll.1 (of_decide_eq_true below)
  obtain ⟨m, hm, rfl⟩ := mem_ids.1 hid
  rcases mem_preorder.1 member with rfl | ⟨top, htop, hn⟩
  · exact h (of_decide_eq_true below)
  · refine h (idsAll_subset htop (ids_subset_of_mem_preorder hn ?_))
    exact ids_child_subset hchild hid

/-- Above a node in a tree stand the top of the tree and what is above it in the tree of a child. -/
theorem above_eq (h : id ∈ idsAll node.children) :
    node.above id = node :: node.children.flatMap (above id) := by
  rw [above, preorder_eq, List.filter_cons, if_pos (decide_eq_true h), preorderAll_eq_flatMap,
    List.filter_flatMap]
  rfl

section

variable {child : Node} (distinct : node.ids.Nodup) (member : child ∈ node.children)
  (inside : id ∈ child.ids)

include distinct member inside

/-- An id in one child of a node with distinct ids is in no other. -/
theorem exists_only_child : ∃ before after, node.children = before ++ child :: after ∧
    ∀ other ∈ before ++ after, id ∉ other.ids := by
  obtain ⟨before, after, split⟩ := List.append_of_mem member
  have below := nodup_children distinct
  rw [split] at below
  exact ⟨before, after, split, fun other hother hid => id_notMem_of_split below hother hid inside⟩

/-- Calls of one task are paid for by the child that has it in its tree. -/
theorem allowanceAll_eq_allowance :
    allowanceAll engine (.ofCalls id) node.children = child.allowance engine (.ofCalls id) := by
  obtain ⟨before, after, split, others⟩ := exists_only_child distinct member inside
  have none (nodes : List Node) (h : nodes ⊆ before ++ after) :
      allowanceAll engine (.ofCalls id) nodes = 0 :=
    allowanceAll_eq_zero fun other hother => allowance_of_notMem (others other (h hother))
  rw [split, allowanceAll_append, allowanceAll, none before (List.subset_append_left _ _),
    none after (List.subset_append_right _ _), Nat.zero_add, Nat.add_zero]

theorem above_eq_cons : node.above id = node :: child.above id := by
  obtain ⟨before, after, split, others⟩ := exists_only_child distinct member inside
  have none (nodes : List Node) (h : nodes ⊆ before ++ after) :
      nodes.flatMap (above id) = [] := by
    refine List.flatMap_eq_nil_iff.2 fun other hother => above_of_notMem fun hid => ?_
    exact others other (h hother) (other.idsAll_children_subset hid)
  rw [above_eq (idsAll_subset member inside), split, List.flatMap_append, List.flatMap_cons,
    none before (List.subset_append_left _ _), none after (List.subset_append_right _ _),
    List.nil_append, List.append_nil]

end

/-- Only the rounds of loops count in the product. -/
theorem prod_rounds_cons (engine : Engine) (node : Node) (rest : List Node) :
    ((node :: rest).filterMap (rounds? engine)).prod =
      node.turns engine * (rest.filterMap (rounds? engine)).prod := by
  rw [List.filterMap_cons, turns]
  cases node.rounds? engine with
  | none => exact (Nat.one_mul _).symm
  | some rounds => exact List.prod_cons

/-- With distinct ids, what a tree allows a task is its attempts as often as the loops around it
have rounds. -/
theorem allowance_eq_prod (engine : Engine) {root task : Node} {spec : TaskSpec}
    (distinct : root.ids.Nodup) (member : task ∈ root.preorder) (kind : task.kind = .task spec) :
    root.allowance engine (.ofCalls task.id) =
      attempts spec * ((root.above task.id).filterMap (rounds? engine)).prod := by
  induction root using Node.induction with
  | step node ih =>
    rcases mem_preorder.1 member with rfl | ⟨child, hchild, inside⟩
    · have own := id_notMem_children distinct
      have below : allowanceAll engine (.ofCalls task.id) task.children = 0 :=
        allowanceAll_eq_zero fun child hchild =>
          allowance_of_notMem fun hid => own (idsAll_subset hchild hid)
      have dues : task.dues (.ofCalls task.id) = attempts spec := by
        simp [Node.dues, kind, Tariff.attempt, Tariff.ofCalls]
      rw [allowance_eq, below, dues, above_of_notMem own]
      exact (Nat.mul_one _).symm
    · have hid : task.id ∈ child.ids := mem_ids.2 ⟨task, inside, rfl⟩
      have own : node.id ≠ task.id := fun same =>
        id_notMem_children distinct (same ▸ idsAll_subset hchild hid)
      have single := nodup_ids_of_mem (nodup_children distinct) hchild
      rw [allowance_eq, dues_ofCalls_of_ne own, allowanceAll_eq_allowance distinct hchild hid,
        ih child hchild single inside, above_eq_cons distinct hchild hid, prod_rounds_cons,
        Nat.zero_add, Nat.mul_left_comm]

end Node

namespace Activity

mutual

/-- What may still have to be paid as an activity goes on. The looks of a wait are free. -/
def allowance (engine : Engine) (tariff : Tariff) : Activity → Nat
  | .calling node _ _ left _ _ _ _ => left * tariff.attempt node.id + tariff.answer + tariff.pause
  | .pausing node _ _ left _ _ => left * tariff.attempt node.id + tariff.pause
  | .polling .. => 0
  | .sequence _ _ current rest =>
    allowance engine tariff current + Node.allowanceAll engine tariff rest
  | .branch _ current => allowance engine tariff current
  | .loop node _ remaining _ _ current rest =>
    allowance engine tariff current + Node.allowanceAll engine tariff rest +
      remaining * Node.allowanceAll engine tariff node.children
  | .parallel _ _ lanes queue _ _ =>
    allowanceOfLanes engine tariff lanes + Node.allowanceAll engine tariff queue +
      queue.length * tariff.turn

/-- What may still have to be paid as the lanes of a block go on. -/
def allowanceOfLanes (engine : Engine) (tariff : Tariff) : List (Lane Activity) → Nat
  | [] => 0
  | lane :: rest => allowanceOfLane engine tariff lane + allowanceOfLanes engine tariff rest

/-- What may still have to be paid as a lane goes on. -/
def allowanceOfLane (engine : Engine) (tariff : Tariff) : Lane Activity → Nat
  | .running _ activity => allowance engine tariff activity
  | .ended _ _ => 0

end

theorem allowanceOfLanes_append (engine : Engine) (tariff : Tariff)
    (lanes more : List (Lane Activity)) :
    allowanceOfLanes engine tariff (lanes ++ more) =
      allowanceOfLanes engine tariff lanes + allowanceOfLanes engine tariff more := by
  induction lanes with
  | nil => simp [allowanceOfLanes]
  | cons lane rest ih => simp only [List.cons_append, allowanceOfLanes, ih, Nat.add_assoc]

end Activity

/-- What is left of the allowance of a node that has made some progress. -/
def Progress.allowance (engine : Engine) (tariff : Tariff) : Progress → Nat
  | .ended _ => 0
  | .waiting activity => activity.allowance engine tariff

/-- What is left of the allowance of steps in turn. -/
def Course.allowance (engine : Engine) (tariff : Tariff) : Course → Nat
  | .ended _ => 0
  | .waiting _ current rest =>
    current.allowance engine tariff + Node.allowanceAll engine tariff rest

end Stepwise

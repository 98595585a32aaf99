import Stepwise.Proofs.Context.State

/-!
# Order in a tree

What the states of the nodes of a tree say about the order in which they were run. A tree is
ordered if in each of its sequences and loops nothing has left its pending state before all that
comes first has completed, and if of the children of each condition at most one has. A tree at
rest is ordered, and nothing in it runs.
-/

namespace Stepwise.Context

variable (context : Context)

/-- Nothing has happened to any node of a tree. -/
def Untouched (node : Node) : Prop := ∀ id ∈ node.ids, context.phase id = .pending

/-- Nodes in turn: if one has left its pending state, those before it have completed. -/
def InTurn (nodes : List Node) : Prop :=
  nodes.Pairwise fun earlier later =>
    context.state later.id ≠ .pending → context.state earlier.id = .completed

/-- At most one of some nodes has left its pending state. -/
def AtMostOne (nodes : List Node) : Prop :=
  nodes.Pairwise fun a b => context.state a.id = .pending ∨ context.state b.id = .pending

/-- What the kind of a node asks of the states of its children. -/
def Orderly (node : Node) : Prop :=
  match node.kind with
  | .sequence => context.InTurn node.children
  | .loop _ => context.InTurn node.children
  | .condition _ => context.AtMostOne node.children
  | _ => True

/-- Every node of a tree has its children in order. -/
def Ordered (node : Node) : Prop := ∀ n ∈ node.preorder, context.Orderly n

/-- A tree at rest: in order, and with no running node. -/
structure Settled (node : Node) : Prop where
  ordered : context.Ordered node
  idle : ∀ id ∈ node.ids, context.state id ≠ .running

/-- A tree at rest but for its top, which may run. -/
structure SettledBelow (node : Node) : Prop where
  ordered : context.Ordered node
  idle : ∀ id ∈ Node.idsAll node.children, context.state id ≠ .running

/-- A tree at rest whose top has completed. -/
structure Done (node : Node) : Prop extends context.Settled node where
  completed : context.state node.id = .completed

variable {context} {later : Context} {node : Node}

/-- What is untouched is pending. -/
theorem Untouched.state (h : context.Untouched node) {id : String} (member : id ∈ node.ids) :
    context.state id = .pending := congrArg Phase.state (h id member)

/-! ## From the states of children to order -/

theorem inTurn_of_untouched {nodes : List Node} (h : ∀ node ∈ nodes, context.Untouched node) :
    context.InTurn nodes := by
  refine List.pairwise_of_forall_mem_list fun earlier _ node member touched => ?_
  exact absurd ((h node member).state node.mem_ids_self) touched

theorem inTurn_of_completed {nodes : List Node}
    (h : ∀ node ∈ nodes, context.state node.id = .completed) : context.InTurn nodes :=
  List.pairwise_of_forall_mem_list fun earlier member _ _ _ => h earlier member

/-- Steps of which some have completed and those after the next have not begun are in turn. -/
theorem inTurn_of_split {before rest : List Node} {child : Node}
    (past : ∀ node ∈ before, context.state node.id = .completed)
    (future : ∀ node ∈ rest, context.Untouched node) : context.InTurn (before ++ child :: rest) := by
  refine List.pairwise_append.2 ⟨inTurn_of_completed past, ?_, fun n hn _ _ _ => past n hn⟩
  refine List.pairwise_cons.2 ⟨fun node member touched => ?_, inTurn_of_untouched future⟩
  exact absurd ((future node member).state node.mem_ids_self) touched

theorem atMostOne_of_untouched {nodes : List Node} (h : ∀ node ∈ nodes, context.Untouched node) :
    context.AtMostOne nodes :=
  List.pairwise_of_forall_mem_list fun n member _ _ => .inl ((h n member).state n.mem_ids_self)

/-- Nodes of which all but one have not begun. -/
theorem atMostOne_of_split {before after : List Node} {child : Node}
    (others : ∀ node ∈ before ++ after, context.Untouched node) :
    context.AtMostOne (before ++ child :: after) := by
  have pending (node : Node) (member : node ∈ before ++ after) : context.state node.id = .pending :=
    (others node member).state node.mem_ids_self
  refine List.pairwise_append.2 ⟨?_, ?_, fun n hn _ _ => ?_⟩
  · exact atMostOne_of_untouched fun n hn => others n (List.mem_append_left _ hn)
  · refine List.pairwise_cons.2 ⟨fun n hn => .inr (pending n (List.mem_append_right _ hn)), ?_⟩
    exact atMostOne_of_untouched fun n hn => others n (List.mem_append_right _ hn)
  · exact .inl (pending n (List.mem_append_left _ hn))

/-- The kinds of nodes whose children run in turn. -/
def Steps (kind : Kind) : Prop := kind = .sequence ∨ ∃ spec, kind = .loop spec

theorem Orderly.of_steps (kind : Steps node.kind) (turn : context.InTurn node.children) :
    context.Orderly node := by
  rcases kind with kind | ⟨spec, kind⟩
  · simpa only [Orderly, kind] using turn
  · simpa only [Orderly, kind] using turn

theorem Orderly.of_condition {text : String} (kind : node.kind = .condition text)
    (one : context.AtMostOne node.children) : context.Orderly node := by
  simpa only [Orderly, kind] using one

theorem Orderly.of_parallel {spec : ParallelSpec} (kind : node.kind = .parallel spec) :
    context.Orderly node := by
  simp only [Orderly, kind]

/-! ## Nodes and their children -/

theorem ordered_iff : context.Ordered node ↔
    context.Orderly node ∧ ∀ child ∈ node.children, context.Ordered child := by
  constructor
  · intro h
    refine ⟨h node node.mem_preorder_self, fun child hchild n hn => ?_⟩
    exact h n (Node.mem_preorder_of_child hchild hn)
  · rintro ⟨top, below⟩ n hn
    rcases Node.mem_preorder.1 hn with rfl | ⟨child, hchild, hn⟩
    · exact top
    · exact below child hchild n hn

theorem SettledBelow.of_children (top : context.Orderly node)
    (below : ∀ child ∈ node.children, context.Settled child) : context.SettledBelow node := by
  refine ⟨ordered_iff.2 ⟨top, fun child hchild => (below child hchild).ordered⟩, fun id hid => ?_⟩
  obtain ⟨child, hchild, hid⟩ := Node.mem_idsAll.1 hid
  exact (below child hchild).idle id hid

theorem SettledBelow.settled (h : context.SettledBelow node)
    (idle : context.state node.id ≠ .running) : context.Settled node := by
  refine ⟨h.ordered, fun id hid => ?_⟩
  rw [Node.ids_eq] at hid
  rcases List.mem_cons.1 hid with rfl | hid
  · exact idle
  · exact h.idle id hid

theorem untouched_of_nodes (context : Context) (nodes : context.nodes = []) (node : Node) :
    context.Untouched node := fun id _ => context.phase_of_nodes nodes id

theorem Orderly.of_untouched (below : ∀ child ∈ node.children, context.Untouched child) :
    context.Orderly node := by
  unfold Orderly
  split
  · exact inTurn_of_untouched below
  · exact inTurn_of_untouched below
  · exact atMostOne_of_untouched below
  · trivial

theorem Untouched.settled (h : context.Untouched node) : context.Settled node := by
  refine ⟨fun n hn => Orderly.of_untouched fun child member id hid => ?_, fun id hid => ?_⟩
  · exact h id (Node.ids_subset_of_mem_preorder (Node.mem_preorder_child hn member) hid)
  · rw [h.state hid]
    decide

/-! ## What is kept when other nodes change -/

theorem Untouched.keep (h : context.Untouched node)
    (same : ∀ id ∈ node.ids, context.state id ≠ .running → later.phase id = context.phase id) :
    later.Untouched node := by
  intro id hid
  refine (same id hid ?_).trans (h id hid)
  rw [h.state hid]
  decide

/-- Order is kept when nodes that run are cancelled, and whatever happens to the top. -/
theorem Ordered.keep (h : context.Ordered node)
    (same : ∀ id ∈ Node.idsAll node.children, later.state id = context.state id ∨
      context.state id = .running ∧ later.state id = .cancelled) : later.Ordered node := by
  intro n hn
  have hchild (child : Node) (member : child ∈ n.children) :
      later.state child.id = context.state child.id ∨
        context.state child.id = .running ∧ later.state child.id = .cancelled :=
    same child.id (Node.id_mem_idsAll_children hn member)
  have turn (inTurn : context.InTurn n.children) : later.InTurn n.children := by
    refine inTurn.imp_of_mem fun {earlier next} hearlier hnext before touched => ?_
    have completed : context.state earlier.id = .completed := by
      refine before fun pending => ?_
      rcases hchild next hnext with state | ⟨running, -⟩
      · exact touched (state.trans pending)
      · rw [pending] at running
        cases running
    rcases hchild earlier hearlier with state | ⟨running, -⟩
    · exact state.trans completed
    · rw [completed] at running
      cases running
  have order := h n hn
  unfold Orderly at order ⊢
  split
  · next kind => exact turn (by simpa only [kind] using order)
  · next spec kind => exact turn (by simpa only [kind] using order)
  · next text kind =>
    have one : context.AtMostOne n.children := by simpa only [kind] using order
    refine one.imp_of_mem fun {a b} ha hb pending => ?_
    have keeps (child : Node) (member : child ∈ n.children)
        (h : context.state child.id = .pending) : later.state child.id = .pending := by
      rcases hchild child member with state | ⟨running, -⟩
      · exact state.trans h
      · rw [h] at running
        cases running
    exact pending.imp (keeps a ha) (keeps b hb)
  · trivial

/-- A tree at rest stays as it is when no node of it is changed that does not run. -/
theorem Settled.keep (h : context.Settled node)
    (same : ∀ id ∈ node.ids, context.state id ≠ .running → later.state id = context.state id) :
    later.Settled node := by
  have same (id : String) (hid : id ∈ node.ids) : later.state id = context.state id :=
    same id hid (h.idle id hid)
  refine ⟨h.ordered.keep fun id hid => ?_, fun id hid => ?_⟩
  · exact .inl (same id (node.idsAll_children_subset hid))
  · rw [same id hid]
    exact h.idle id hid

/-- What is at rest below the top stays so, whatever happens to the top. -/
theorem SettledBelow.keep (h : context.SettledBelow node)
    (same : ∀ id ∈ Node.idsAll node.children, later.state id = context.state id) :
    later.SettledBelow node := by
  refine ⟨h.ordered.keep fun id hid => .inl (same id hid), fun id hid => ?_⟩
  rw [same id hid]
  exact h.idle id hid

/-- A tree in order is at rest once its nodes are halted. -/
theorem Ordered.halt (h : context.Ordered node) {now : Nat}
    (halted : ∀ id ∈ node.ids, later.phase id = context.halted now id) : later.Settled node := by
  have state (id : String) (hid : id ∈ node.ids) : later.state id =
      if context.state id = .running then .cancelled else context.state id :=
    (congrArg Phase.state (halted id hid)).trans (context.state_halted now id)
  refine ⟨h.keep fun id hid => ?_, fun id hid => ?_⟩
  · have state := state id (node.idsAll_children_subset hid)
    by_cases running : context.state id = .running
    · exact .inr ⟨running, state.trans (if_pos running)⟩
    · exact .inl (state.trans (if_neg running))
  · rw [state id hid]
    split
    · decide
    · assumption

theorem Done.keep (h : context.Done node)
    (same : ∀ id ∈ node.ids, context.state id ≠ .running → later.state id = context.state id) :
    later.Done node := by
  refine ⟨h.toSettled.keep same, ?_⟩
  rw [same node.id node.mem_ids_self (h.idle node.id node.mem_ids_self), h.completed]

theorem LeftAlone.keeps {id : String} (h : context.LeftAlone later id)
    (idle : context.state id ≠ .running) : later.state id = context.state id :=
  congrArg Phase.state (h.phase_eq idle)

theorem LeftAlone.same_or_cancelled {id : String} (h : context.LeftAlone later id) :
    later.state id = context.state id ∨
      context.state id = .running ∧ later.state id = .cancelled := by
  rcases h with ⟨state, -⟩ | ⟨running, cancelled, -⟩
  · exact .inl state
  · exact .inr ⟨running, cancelled⟩

/-- A running node that is left alone runs on unless the run is cancelled. -/
theorem LeftAlone.running_or_cancelled {id : String} (h : context.LeftAlone later id)
    (running : context.state id = .running) :
    later.state id = .running ∨ later.state id = .cancelled ∧ later.cancelled = true := by
  rcases h with ⟨state, -⟩ | ⟨-, ended, cancelled⟩
  · exact .inl (state.trans running)
  · exact .inr ⟨ended, cancelled⟩

end Stepwise.Context

import Stepwise.Proofs.Run.Shape

/-!
# Values of blocks

The value of a block that has completed is put together from the values of its children: a
sequence has all of them in order, a parallel block that waits for all has one for each child, be
it the value of a failure, and a condition has the value of the branch that was taken. `Tallies`
says so of one node and `Tallied` of all nodes in a tree; `Holds` says of the values that an
activity has collected so far that they are those of its children. What has been collected stays
right as long as nodes are kept that have ended (`Steady`).
-/

namespace Stepwise

namespace Context

variable (context : Context)

/-- A node has completed with a value. -/
def Yields (node : Node) (value : Json) : Prop :=
  context.state node.id = .completed ∧ (context.phase node.id).result? = some value

/-- A node has failed, and its value is that of the failure. -/
def Fails (node : Node) (fault : Fault) : Prop :=
  context.state node.id = .failed ∧ (context.phase node.id).result? = some (fault.value node.id)

/-- The part that a child has in the value of a parallel block. -/
def Fills (child : Node) (value : Json) : Prop :=
  context.Yields child value ∨
    ∃ fault : Fault, context.Fails child fault ∧ value = fault.value child.id

/-- A value of a node is put together from those of its children as its kind asks. -/
def Sums (node : Node) (value : Json) : Prop :=
  match node.kind with
  | .sequence => ∃ values, value = .arr values ∧ List.Forall₂ context.Yields node.children values
  | .parallel spec => spec.waitForAll = true →
    ∃ values, value = .arr values ∧ List.Forall₂ context.Fills node.children values
  | .condition _ =>
    (value = .null ∧ ∀ child ∈ node.children, context.state child.id = .pending) ∨
      ∃ before child after, node.children = before ++ child :: after ∧
        (∀ other ∈ before ++ after, context.state other.id = .pending) ∧ context.Yields child value
  | _ => True

/-- If a node has completed, its value is put together from those of its children. -/
def Tallies (node : Node) : Prop := ∀ value, context.Yields node value → context.Sums node value

/-- The values of all nodes of a tree that have completed are put together from others. -/
def Tallied (node : Node) : Prop := ∀ n ∈ node.preorder, context.Tallies n

/-- The values that an activity has collected are those of nodes that have ended. -/
inductive Holds : Node → Activity → Prop
  | calling {node : Node} {spec : TaskSpec} {call : Call} {left : Nat} {reply : Reply}
      {ticket due : Nat} {limit : Option Nat} :
      Holds node (.calling node spec call left reply ticket due limit)
  | pausing {node : Node} {spec : TaskSpec} {call : Call} {left ticket due : Nat} :
      Holds node (.pausing node spec call left ticket due)
  | polling {node : Node} {spec : WaitSpec} {deadline : Option Nat} {ticket due : Nat} :
      Holds node (.polling node spec deadline ticket due)
  | sequence {node child : Node} {done : List Json} {current : Activity} {before rest : List Node}
      (children : node.children = before ++ child :: rest)
      (past : List.Forall₂ context.Yields before done) (present : Holds child current) :
      Holds node (.sequence node done current rest)
  | branch {node child : Node} {current : Activity} (member : child ∈ node.children)
      (present : Holds child current) : Holds node (.branch node current)
  | loop {node child : Node} {spec : LoopSpec} {remaining : Nat} {finished done : List Json}
      {current : Activity} {before rest : List Node}
      (children : node.children = before ++ child :: rest)
      (past : List.Forall₂ context.Yields before done) (present : Holds child current) :
      Holds node (.loop node spec remaining finished done current rest)
  | parallel {node : Node} {spec : ParallelSpec} {lanes : List (Lane Activity)} {queue : List Node}
      {door : Option Nat} {firstError : Option Fault}
      (children : node.children = lanes.map Lane.child ++ queue)
      (running : ∀ child activity, .running child activity ∈ lanes → Holds child activity)
      (ended : ∀ child slot, .ended child slot ∈ lanes → context.Fills child slot) :
      Holds node (.parallel node spec lanes queue door firstError)

/-- A node that has ended or not begun stays as it is, and one that runs does not complete. -/
structure Steady (context later : Context) (id : String) : Prop where
  kept : context.state id ≠ .running → later.phase id = context.phase id
  unfinished : context.state id = .running → later.state id ≠ .completed

variable {context} {later : Context} {node : Node}

/-- Nodes that are tied to values by one relation may be tied by another. -/
theorem forall₂_imp_of_mem {R S : Node → Json → Prop} {nodes : List Node} {values : List Json}
    (h : List.Forall₂ R nodes values)
    (imp : ∀ node ∈ nodes, ∀ value, R node value → S node value) : List.Forall₂ S nodes values := by
  have inside := (List.forall₂_and_left nodes values).2 ⟨fun _ member => member, h⟩
  exact inside.imp fun node value tied => imp node tied.1 value tied.2

/-! ## Nodes that stay as they are -/

theorem Steady.of_phase {id : String} (h : later.phase id = context.phase id) :
    context.Steady later id := by
  refine ⟨fun _ => h, fun running => ?_⟩
  rw [state, h, ← state, running]
  decide

theorem LeftAlone.steady {id : String} (h : context.LeftAlone later id) :
    context.Steady later id := by
  refine ⟨h.phase_eq, fun running => ?_⟩
  rcases h.same_or_cancelled with state | ⟨-, cancelled⟩
  · rw [state, running]
    decide
  · rw [cancelled]
    decide

theorem Steady.of_halted {id : String} {now : Nat} (h : later.phase id = context.halted now id) :
    context.Steady later id := by
  refine ⟨fun idle => h.trans (context.halted_of_ne idle now), fun running => ?_⟩
  rw [state, h, state_halted, if_pos running]
  decide

/-- A node that has a value does not run. -/
theorem Yields.idle {value : Json} (h : context.Yields node value) :
    context.state node.id ≠ .running := by
  rw [h.1]
  decide

theorem Yields.keep {value : Json} (h : context.Yields node value)
    (same : context.state node.id ≠ .running → later.phase node.id = context.phase node.id) :
    later.Yields node value := by
  have same := same h.idle
  exact ⟨(congrArg Phase.state same).trans h.1, (congrArg Phase.result? same).trans h.2⟩

theorem Fills.keep {value : Json} (h : context.Fills node value)
    (same : context.state node.id ≠ .running → later.phase node.id = context.phase node.id) :
    later.Fills node value := by
  rcases h with yields | ⟨fault, ⟨failed, result⟩, rfl⟩
  · exact .inl (yields.keep same)
  · have same := same (by rw [failed]; decide)
    refine .inr ⟨fault, ⟨?_, ?_⟩, rfl⟩
    · exact (congrArg Phase.state same).trans failed
    · exact (congrArg Phase.result? same).trans result

/-- A value stays put together from those of the children while they stay as they are. -/
theorem Sums.keep {value : Json} (h : context.Sums node value)
    (same : ∀ child ∈ node.children, context.state child.id ≠ .running →
      later.phase child.id = context.phase child.id) : later.Sums node value := by
  have pending {child : Node} (member : child ∈ node.children)
      (h : context.state child.id = .pending) : later.state child.id = .pending := by
    refine (congrArg Phase.state (same child member ?_)).trans h
    rw [h]
    decide
  unfold Sums at h ⊢
  split
  · next kind =>
    simp only [kind] at h
    obtain ⟨values, rfl, each⟩ := h
    refine ⟨values, rfl, ?_⟩
    exact forall₂_imp_of_mem each fun child member _ tied => tied.keep (same child member)
  · next spec kind =>
    simp only [kind] at h
    intro waits
    obtain ⟨values, rfl, each⟩ := h waits
    refine ⟨values, rfl, ?_⟩
    exact forall₂_imp_of_mem each fun child member _ tied => tied.keep (same child member)
  · next text kind =>
    simp only [kind] at h
    rcases h with ⟨rfl, idle⟩ | ⟨before, child, after, children, others, yields⟩
    · exact .inl ⟨rfl, fun child member => pending member (idle child member)⟩
    · refine .inr ⟨before, child, after, children, fun other member => ?_,
        yields.keep (same child ?_)⟩
      · refine pending ?_ (others other member)
        rw [children]
        rcases List.mem_append.1 member with member | member <;> simp [member]
      · rw [children]
        exact List.mem_append_right _ List.mem_cons_self
  · trivial

/-- A composite node agrees with its children as long as they are steady. -/
theorem Tallies.keep (h : context.Tallies node) (top : context.Steady later node.id)
    (same : ∀ child ∈ node.children, context.Steady later child.id) : later.Tallies node := by
  intro value yields
  -- What has completed later had done so before.
  have idle : context.state node.id ≠ .running := fun running => top.unfinished running yields.1
  have same' := top.kept idle
  have before : context.Yields node value :=
    ⟨(congrArg Phase.state same').symm.trans yields.1,
      (congrArg Phase.result? same').symm.trans yields.2⟩
  exact (h value before).keep fun child member => (same child member).kept

/-- A tree agrees with its results as long as all in it is steady. -/
theorem Tallied.keep (h : context.Tallied node) (same : ∀ id ∈ node.ids, context.Steady later id) :
    later.Tallied node := by
  intro n hn
  have inside := Node.ids_subset_of_mem_preorder hn
  refine (h n hn).keep (same n.id (inside n.mem_ids_self)) fun child member => ?_
  exact same child.id (inside (Node.ids_child_subset member child.mem_ids_self))

/-- What an activity has collected stays right while nodes that do not run stay as they are. -/
theorem Holds.keep {activity : Activity} (h : context.Holds node activity)
    (same : ∀ id ∈ node.ids, context.state id ≠ .running → later.phase id = context.phase id) :
    later.Holds node activity := by
  have steps {node child : Node} {done : List Json} {before rest : List Node}
      (same : ∀ id ∈ node.ids, context.state id ≠ .running → later.phase id = context.phase id)
      (children : node.children = before ++ child :: rest)
      (past : List.Forall₂ context.Yields before done) : List.Forall₂ later.Yields before done := by
    refine forall₂_imp_of_mem past fun n member _ yields => yields.keep (same n.id ?_)
    exact Node.ids_child_subset (children ▸ List.mem_append_left _ member) n.mem_ids_self
  induction h with
  | calling => exact .calling
  | pausing => exact .pausing
  | polling => exact .polling
  | sequence children past _ ih =>
    refine .sequence children (steps same children past) (ih fun id hid => same id ?_)
    exact Node.ids_child_subset (children ▸ List.mem_append_right _ List.mem_cons_self) hid
  | branch member _ ih =>
    exact .branch member (ih fun id hid => same id (Node.ids_child_subset member hid))
  | loop children past _ ih =>
    refine .loop children (steps same children past) (ih fun id hid => same id ?_)
    exact Node.ids_child_subset (children ▸ List.mem_append_right _ List.mem_cons_self) hid
  | parallel children _ ended ih =>
    refine .parallel children (fun child activity member => ?_) fun child slot member => ?_
    · have inside := Node.ids_child_subset (Fits.lane_child_mem children member)
      exact ih child activity member fun id hid => same id (inside hid)
    · have inside := Node.ids_child_subset (Fits.lane_child_mem children member)
      exact (ended child slot member).keep (same child.id (inside child.mem_ids_self))

/-! ## Trees -/

/-- A tree agrees with its results if its top does and each child's tree does. -/
theorem tallied_iff : context.Tallied node ↔
    context.Tallies node ∧ ∀ child ∈ node.children, context.Tallied child := by
  constructor
  · intro h
    refine ⟨h node node.mem_preorder_self, fun child hchild n hn => ?_⟩
    exact h n (Node.mem_preorder_of_child hchild hn)
  · rintro ⟨top, below⟩ n hn
    rcases Node.mem_preorder.1 hn with rfl | ⟨child, hchild, hn⟩
    · exact top
    · exact below child hchild n hn

/-- Nothing is asked of a node that has not completed. -/
theorem tallies_of_ne (h : context.state node.id ≠ .completed) : context.Tallies node :=
  fun _ yields => absurd yields.1 h

/-- Where nothing has begun there is nothing to agree on. -/
theorem Untouched.tallied (h : context.Untouched node) : context.Tallied node := by
  refine fun n hn => tallies_of_ne ?_
  rw [h.state (Node.mem_ids.2 ⟨n, hn, rfl⟩)]
  decide

end Context

end Stepwise

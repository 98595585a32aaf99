import Stepwise.Proofs.Context.Order
import Stepwise.Proofs.Run.Ticket

/-!
# The shape of a run

`Fits context live node activity` says that an activity is one of a node, and that the states of
the nodes in its tree are what the activity tells: the nodes that have started and not ended are
all in the state `live`, what was done before them is at rest, and what is still to come has not
been touched. They are running as a rule, and cancelled once the run was cancelled from outside.
-/

namespace Stepwise

/-- An activity is one of a node, with the states of nodes that it tells. -/
inductive Context.Fits (context : Context) (live : NodeState) : Node → Activity → Prop
  | calling {node : Node} {spec : TaskSpec} {call : Call} {left : Nat} {reply : Reply}
      {ticket due : Nat} {limit : Option Nat} (kind : node.kind = .task spec)
      (state : context.state node.id = live)
      (below : ∀ child ∈ node.children, context.Untouched child) :
      Fits context live node (.calling node spec call left reply ticket due limit)
  | pausing {node : Node} {spec : TaskSpec} {call : Call} {left ticket due : Nat}
      (kind : node.kind = .task spec) (state : context.state node.id = live)
      (below : ∀ child ∈ node.children, context.Untouched child) (more : left ≠ 0) :
      Fits context live node (.pausing node spec call left ticket due)
  | polling {node : Node} {spec : WaitSpec} {deadline : Option Nat} {ticket due : Nat}
      (kind : node.kind = .wait spec) (state : context.state node.id = live)
      (below : ∀ child ∈ node.children, context.Untouched child) :
      Fits context live node (.polling node spec deadline ticket due)
  | sequence {node child : Node} {done : List Json} {current : Activity} {before rest : List Node}
      (kind : node.kind = .sequence) (state : context.state node.id = live)
      (children : node.children = before ++ child :: rest)
      (past : ∀ n ∈ before, context.Done n) (present : Fits context live child current)
      (future : ∀ n ∈ rest, context.Untouched n) :
      Fits context live node (.sequence node done current rest)
  | branch {node child : Node} {text : String} {current : Activity} {before after : List Node}
      (kind : node.kind = .condition text) (state : context.state node.id = live)
      (children : node.children = before ++ child :: after)
      (others : ∀ n ∈ before ++ after, context.Untouched n)
      (present : Fits context live child current) :
      Fits context live node (.branch node current)
  | loop {node child : Node} {spec : LoopSpec} {remaining : Nat} {finished done : List Json}
      {current : Activity} {before rest : List Node}
      (kind : node.kind = .loop spec) (state : context.state node.id = live)
      (children : node.children = before ++ child :: rest)
      (past : ∀ n ∈ before, context.Done n) (present : Fits context live child current)
      (future : ∀ n ∈ rest, context.Untouched n) :
      Fits context live node (.loop node spec remaining finished done current rest)
  | parallel {node : Node} {spec : ParallelSpec} {lanes : List (Lane Activity)} {queue : List Node}
      {door : Option Nat} {firstError : Option Fault} (kind : node.kind = .parallel spec)
      (state : context.state node.id = live)
      (children : node.children = lanes.map Lane.child ++ queue)
      (running : ∀ child activity, .running child activity ∈ lanes →
        Fits context live child activity)
      (ended : ∀ child slot, .ended child slot ∈ lanes → context.Settled child)
      (waiting : ∀ child ∈ queue, context.Untouched child)
      (plain : Run.PlainError firstError) (entry : door.isSome = true → queue ≠ [])
      (busy : door.isSome = true ∨ ∃ child activity, .running child activity ∈ lanes) :
      Fits context live node (.parallel node spec lanes queue door firstError)

namespace Context.Fits

variable {context later : Context} {live live' : NodeState} {node : Node} {activity : Activity}

/-- The node of an activity is in the state that goes with it. -/
theorem state_eq (h : context.Fits live node activity) : context.state node.id = live := by
  cases h <;> assumption

/-- A child that runs in a lane of a block is a child of the block. -/
theorem lane_child_mem {lanes : List (Lane Activity)} {queue : List Node} {lane : Lane Activity}
    (children : node.children = lanes.map Lane.child ++ queue) (member : lane ∈ lanes) :
    lane.child ∈ node.children := by
  rw [children]
  exact List.mem_append_left _ (List.mem_map_of_mem member)

/-- What an activity tells is in order. -/
theorem ordered (h : context.Fits live node activity) : context.Ordered node := by
  have untouchedBelow {node : Node} (below : ∀ child ∈ node.children, context.Untouched child) :
      context.Ordered node :=
    ordered_iff.2 ⟨.of_untouched below, fun child member => (below child member).settled.ordered⟩
  -- The steps of a sequence and the body of a loop stand alike.
  have stepsOrdered {before rest : List Node} {child : Node}
      (past : ∀ n ∈ before, context.Done n) (present : context.Ordered child)
      (future : ∀ n ∈ rest, context.Untouched n) :
      context.InTurn (before ++ child :: rest) ∧
        ∀ n ∈ before ++ child :: rest, context.Ordered n := by
    refine ⟨inTurn_of_split (fun n hn => (past n hn).completed) future, fun n hn => ?_⟩
    rcases List.mem_append.1 hn with hn | hn
    · exact (past n hn).ordered
    · rcases List.mem_cons.1 hn with rfl | hn
      · exact present
      · exact (future n hn).settled.ordered
  induction h with
  | calling _ _ below | pausing _ _ below _ | polling _ _ below => exact untouchedBelow below
  | sequence kind _ children past _ future ih =>
    obtain ⟨turn, below⟩ := stepsOrdered past ih future
    rw [← children] at turn below
    exact ordered_iff.2 ⟨.of_steps (.inl kind) turn, below⟩
  | loop kind _ children past _ future ih =>
    obtain ⟨turn, below⟩ := stepsOrdered past ih future
    rw [← children] at turn below
    exact ordered_iff.2 ⟨.of_steps (.inr ⟨_, kind⟩) turn, below⟩
  | @branch node child _ _ before after kind _ children others _ ih =>
    refine ordered_iff.2 ⟨.of_condition kind ?_, fun n hn => ?_⟩
    · rw [children]
      exact atMostOne_of_split others
    · rw [children] at hn
      rcases List.mem_append.1 hn with hn | hn
      · exact (others n (List.mem_append_left _ hn)).settled.ordered
      · rcases List.mem_cons.1 hn with rfl | hn
        · exact ih
        · exact (others n (List.mem_append_right _ hn)).settled.ordered
  | parallel kind _ children _ ended waiting _ _ _ ih =>
    refine ordered_iff.2 ⟨.of_parallel kind, fun n hn => ?_⟩
    rw [children] at hn
    rcases List.mem_append.1 hn with hn | hn
    · obtain ⟨lane, member, rfl⟩ := List.mem_map.1 hn
      cases lane with
      | running child activity => exact ih child activity member
      | ended child slot => exact (ended child slot member).ordered
    · exact (waiting n hn).settled.ordered

/-- An activity still tells the states of nodes when those that have started all change theirs
alike and all others keep theirs. -/
theorem transfer (h : context.Fits live node activity)
    (started : ∀ id ∈ node.ids, context.state id = live → later.state id = live')
    (others : ∀ id ∈ node.ids, context.state id ≠ .running → later.phase id = context.phase id) :
    later.Fits live' node activity := by
  have untouchedBelow {node : Node}
      (others : ∀ id ∈ node.ids, context.state id ≠ .running → later.phase id = context.phase id)
      (below : ∀ child ∈ node.children, context.Untouched child) :
      ∀ child ∈ node.children, later.Untouched child := fun child member =>
    (below child member).keep fun id hid => others id (Node.ids_child_subset member hid)
  induction h with
  | @calling node _ _ _ _ _ _ _ kind state below =>
    exact .calling kind (started _ node.mem_ids_self state) (untouchedBelow others below)
  | @pausing node _ _ _ _ _ kind state below more =>
    exact .pausing kind (started _ node.mem_ids_self state) (untouchedBelow others below) more
  | @polling node _ _ _ _ kind state below =>
    exact .polling kind (started _ node.mem_ids_self state) (untouchedBelow others below)
  | @sequence node child _ _ before rest kind state children past _ future ih
  | @loop node child _ _ _ _ _ before rest kind state children past _ future ih =>
    have inside (n : Node) (member : n ∈ before ++ child :: rest) : n.ids ⊆ node.ids :=
      Node.ids_child_subset (children ▸ member)
    have subset := inside child (by simp)
    constructor
    · exact kind
    · exact started _ node.mem_ids_self state
    · exact children
    · intro n hn
      exact (past n hn).keep fun id hid idle =>
        congrArg Phase.state (others id (inside n (List.mem_append_left _ hn) hid) idle)
    · exact ih (fun id hid => started id (subset hid)) fun id hid => others id (subset hid)
    · intro n hn
      exact (future n hn).keep fun id hid => others id (inside n (by simp [hn]) hid)
  | @branch node child _ _ before after kind state children untouched _ ih =>
    have inside (n : Node) (member : n ∈ before ++ child :: after) : n.ids ⊆ node.ids :=
      Node.ids_child_subset (children ▸ member)
    refine .branch kind (started _ node.mem_ids_self state) children (fun n hn => ?_) ?_
    · have member : n ∈ before ++ child :: after := by
        rcases List.mem_append.1 hn with hn | hn <;> simp [hn]
      exact (untouched n hn).keep fun id hid => others id (inside n member hid)
    · have subset := inside child (by simp)
      exact ih (fun id hid => started id (subset hid)) fun id hid => others id (subset hid)
  | @parallel node _ lanes queue _ _ kind state children _ ended waiting plain entry busy ih =>
    refine .parallel kind (started _ node.mem_ids_self state) children
      (fun child activity member => ?_) (fun child slot member => ?_) (fun child member => ?_)
      plain entry busy
    · have subset := Node.ids_child_subset (lane_child_mem children member)
      exact ih child activity member (fun id hid => started id (subset hid))
        fun id hid => others id (subset hid)
    · exact (ended child slot member).keep fun id hid idle => congrArg Phase.state
        (others id (Node.ids_child_subset (lane_child_mem children member) hid) idle)
    · refine (waiting child member).keep fun id hid => others id (Node.ids_child_subset ?_ hid)
      rw [children]
      exact List.mem_append_right _ member

/-- Nothing that fits changes while its nodes are left alone and the run is not cancelled. -/
theorem keep (h : context.Fits live node activity) (live' : later.cancelled = false)
    (same : ∀ id ∈ node.ids, context.LeftAlone later id) : later.Fits live node activity :=
  h.transfer (fun id hid state => ((same id hid).state_eq live').trans state)
    fun id hid => (same id hid).phase_eq

/-- A child in whose tree a node runs waits for something itself. -/
theorem fits_of_running (h : context.Fits live node activity) {child : Node}
    (member : child ∈ node.children) {id : String} (hid : id ∈ child.ids)
    (running : context.state id = .running) : ∃ current, context.Fits live child current := by
  have elsewhere (settled : context.Settled child) : ∃ current, context.Fits live child current :=
    absurd running (settled.idle id hid)
  cases h with
  | calling _ _ below | pausing _ _ below _ | polling _ _ below =>
    exact elsewhere (below child member).settled
  | sequence _ _ children past present future | loop _ _ children past present future =>
    rw [children, List.mem_append, List.mem_cons] at member
    rcases member with member | rfl | member
    · exact elsewhere (past child member).toSettled
    · exact ⟨_, present⟩
    · exact elsewhere (future child member).settled
  | branch _ _ children others present =>
    rw [children, List.mem_append, List.mem_cons] at member
    rcases member with member | rfl | member
    · exact elsewhere (others child (List.mem_append_left _ member)).settled
    · exact ⟨_, present⟩
    · exact elsewhere (others child (List.mem_append_right _ member)).settled
  | parallel _ _ children present ended waiting =>
    rw [children, List.mem_append] at member
    rcases member with member | member
    · obtain ⟨lane, hlane, rfl⟩ := List.mem_map.1 member
      cases lane with
      | running child activity => exact ⟨activity, present child activity hlane⟩
      | ended child slot => exact elsewhere (ended child slot hlane)
    · exact elsewhere (waiting child member).settled

/-- All nodes above a running node run. -/
theorem running_above (h : context.Fits live node activity) {m n : Node} (hn : n ∈ node.preorder)
    (hm : m ∈ n.preorder) (running : context.state m.id = .running) :
    context.state n.id = .running := by
  induction node using Node.induction generalizing n activity with
  | step node ih =>
    have inside {child : Node} (member : child ∈ node.children) (hm : m ∈ child.preorder) :
        ∃ current, context.Fits live child current :=
      h.fits_of_running member (Node.mem_ids.2 ⟨m, hm, rfl⟩) running
    rcases Node.mem_preorder.1 hn with rfl | ⟨child, member, hn⟩
    · rcases Node.mem_preorder.1 hm with rfl | ⟨child, member, hm⟩
      · exact running
      · -- The child runs, so whatever has started does, and the top has.
        obtain ⟨current, fits⟩ := inside member hm
        have runs := ih child member fits child.mem_preorder_self hm
        rw [h.state_eq, ← fits.state_eq, runs]
    · obtain ⟨current, fits⟩ := inside member (Node.mem_preorder_trans hn hm)
      exact ih child member fits hn hm

end Context.Fits

end Stepwise

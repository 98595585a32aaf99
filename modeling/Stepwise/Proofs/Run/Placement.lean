import Stepwise.Proofs.Run.Shape

/-!
# What starting leaves behind

A node of an untouched tree that starts leaves the nodes of the tree in the states that its
progress tells: a tree at rest if it has ended, and an activity that fits if it waits. This is
`placed_start`. The proof goes through the tree once more; while one part of a tree acts, the
others are left alone, since no two parts share an id.
-/

namespace Stepwise

namespace Context

variable (context : Context)

/-- The states of the nodes in a tree are what its progress tells. -/
def Placed (node : Node) : Progress → Prop
  | .ended (.ok _) => context.Done node
  | .ended (.error _) => context.Settled node
  | .waiting activity => context.Fits .running node activity

/-- Likewise before the end of the node is recorded. -/
def Worked (node : Node) : Progress → Prop
  | .ended _ => context.SettledBelow node
  | .waiting activity => context.state node.id = .running → context.Fits .running node activity

/-- Likewise for steps in turn. -/
def Passed (nodes : List Node) : Course → Prop
  | .ended (.ok _) => ∀ node ∈ nodes, context.Done node
  | .ended (.error _) => context.InTurn nodes ∧ ∀ node ∈ nodes, context.Settled node
  | .waiting _ current rest => ∃ before child, nodes = before ++ child :: rest ∧
      (∀ node ∈ before, context.Done node) ∧ context.Fits .running child current ∧
      ∀ node ∈ rest, context.Untouched node

variable {context} {node : Node} {nodes : List Node}

/-- A node that has ended is at rest with all below it. -/
theorem Placed.settled {outcome : Except Fault Json} (h : context.Placed node (.ended outcome)) :
    context.Settled node := by
  cases outcome with
  | ok value => exact h.toSettled
  | error fault => exact h

/-- Steps that have ended stand in turn, each at rest. -/
theorem Passed.settled {outcome : Except Fault (List Json)}
    (h : context.Passed nodes (.ended outcome)) :
    context.InTurn nodes ∧ ∀ node ∈ nodes, context.Settled node := by
  cases outcome with
  | error fault => exact h
  | ok values =>
    refine ⟨inTurn_of_completed fun node member => (h node member).completed, ?_⟩
    exact fun node member => (h node member).toSettled

/-- Steps of which the first has completed. -/
theorem Passed.cons {course : Course} (first : context.Done node)
    (h : context.Passed nodes course) : context.Passed (node :: nodes) course := by
  cases course with
  | waiting done current rest =>
    obtain ⟨before, child, rfl, past, present, future⟩ := h
    exact ⟨node :: before, child, rfl, List.forall_mem_cons.2 ⟨first, past⟩, present, future⟩
  | ended outcome =>
    cases outcome with
    | ok values => exact List.forall_mem_cons.2 ⟨first, h⟩
    | error fault =>
      refine ⟨List.pairwise_cons.2 ⟨fun _ _ _ => first.completed, h.1⟩, ?_⟩
      exact List.forall_mem_cons.2 ⟨first.toSettled, h.2⟩

/-- Steps of which the first has failed and the others have not begun. -/
theorem Passed.failed {fault : Fault} (present : context.Settled node)
    (future : ∀ n ∈ nodes, context.Untouched n) :
    context.Passed (node :: nodes) (.ended (.error fault)) := by
  refine ⟨List.pairwise_cons.2 ⟨fun n member touched => ?_, inTurn_of_untouched future⟩, ?_⟩
  · exact absurd ((future n member).state n.mem_ids_self) touched
  · exact List.forall_mem_cons.2 ⟨present, fun n member => (future n member).settled⟩

/-- Steps of which some have completed, before others. -/
theorem Passed.append {before : List Node} {course : Course}
    (past : ∀ node ∈ before, context.Done node) (h : context.Passed nodes course) :
    context.Passed (before ++ nodes) course := by
  induction before with
  | nil => exact h
  | cons node before ih =>
    rw [List.forall_mem_cons] at past
    exact (ih past.2).cons past.1

/-- A lane of a block, with the states of nodes that it tells. -/
def InLane (context : Context) : Lane Activity → Prop
  | .running child activity => context.Fits .running child activity
  | .ended child _ => context.Settled child

end Context

/-- What stands beside a child of a block: the other lanes, of which those that still run do so
unless the run is cancelled, and the children that have not begun. -/
structure Context.Beside (context : Context) (lanes : List (Lane Activity)) (queue : List Node) :
    Prop where
  ordered : ∀ lane ∈ lanes, context.Ordered lane.child
  settled : ∀ lane ∈ lanes, lane.unfinished? = none → context.Settled lane.child
  inLanes : context.cancelled = false → ∀ lane ∈ lanes, context.InLane lane
  waiting : ∀ n ∈ queue, context.Untouched n

/-! ## Trees that have not begun -/

namespace RunState

variable {node : Node}

/-- Nodes that are rearmed have not begun. -/
theorem untouched_rearm (s : RunState) {nodes : List Node} (member : node ∈ nodes) :
    (s.rearm nodes).context.Untouched node := by
  intro id hid
  have phase := s.phase_rearm nodes id
  rw [if_pos (Node.idsAll_subset member hid)] at phase
  exact phase

/-- The top of an untouched tree starts, and what is below has not begun. -/
theorem startNode_of_untouched (s : RunState) (untouched : s.context.Untouched node)
    (distinct : node.ids.Nodup) : (s.startNode node).context.state node.id = .running ∧
      ∀ child ∈ node.children, (s.startNode node).context.Untouched child := by
  have phase (id : String) := s.phase_startNode node id
  refine ⟨?_, fun child member id hid => ?_⟩
  · refine (congrArg Phase.state ((phase node.id).trans (if_pos rfl))).trans ?_
    exact (Phase.state_start ..).trans (if_pos (untouched.state node.mem_ids_self))
  · have inside := Node.idsAll_subset member hid
    refine ((phase id).trans (if_neg ?_)).trans
      (untouched id (node.idsAll_children_subset inside))
    rintro rfl
    exact Node.id_notMem_children distinct inside

end RunState

/-! ## Other parts of the tree -/

namespace Acts

variable {engine : Engine} {manner : Manner} {ids : List String} {s s' : RunState} {node : Node}

theorem untouched (acts : Acts engine manner ids s s') (apart : node.ids.Disjoint ids)
    (h : s.context.Untouched node) : s'.context.Untouched node :=
  h.keep fun _ hid => (acts.leftAlone (apart hid)).phase_eq

theorem settled (acts : Acts engine manner ids s s') (apart : node.ids.Disjoint ids)
    (h : s.context.Settled node) : s'.context.Settled node :=
  h.keep fun _ hid => (acts.leftAlone (apart hid)).keeps

theorem done (acts : Acts engine manner ids s s') (apart : node.ids.Disjoint ids)
    (h : s.context.Done node) : s'.context.Done node :=
  h.keep fun _ hid => (acts.leftAlone (apart hid)).keeps

theorem ordered (acts : Acts engine manner ids s s') (apart : node.ids.Disjoint ids)
    (h : s.context.Ordered node) : s'.context.Ordered node := by
  refine h.keep fun id hid => (acts.leftAlone ?_).same_or_cancelled
  exact apart (node.idsAll_children_subset hid)

theorem fits (acts : Acts engine manner ids s s') (apart : node.ids.Disjoint ids)
    (live : s'.context.cancelled = false) {state : NodeState} {activity : Activity}
    (h : s.context.Fits state node activity) : s'.context.Fits state node activity :=
  h.keep live fun _ hid => acts.leftAlone (apart hid)

theorem inLane (acts : Acts engine manner ids s s') {lane : Lane Activity}
    (apart : lane.child.ids.Disjoint ids) (live : s'.context.cancelled = false)
    (h : s.context.InLane lane) : s'.context.InLane lane := by
  cases lane with
  | running child activity => exact acts.fits apart live h
  | ended child slot => exact acts.settled apart h

/-- What stands beside a child stays as it is while the child acts. -/
theorem beside (acts : Acts engine manner ids s s') {lanes : List (Lane Activity)}
    {queue : List Node}
    (apart : ∀ n ∈ lanes.map Lane.child ++ queue, n.ids.Disjoint ids)
    (h : s.context.Beside lanes queue) : s'.context.Beside lanes queue := by
  have apartLane (lane : Lane Activity) (member : lane ∈ lanes) : lane.child.ids.Disjoint ids :=
    apart lane.child (List.mem_append_left _ (List.mem_map_of_mem member))
  refine ⟨fun lane member => acts.ordered (apartLane lane member) (h.ordered lane member),
    fun lane member last => acts.settled (apartLane lane member) (h.settled lane member last),
    fun live lane member => acts.inLane (apartLane lane member) live (h.inLanes ?_ lane member),
    fun n member => acts.untouched (apart n (List.mem_append_right _ member)) (h.waiting n member)⟩
  refine eq_false_of_ne_true fun dead => ?_
  rw [acts.cancelled dead] at live
  cases live

end Acts

namespace Run

variable {engine : Engine} {s : RunState} {node : Node}

/-! ## Tasks and waits -/

/-- What a node comes to that has nothing below it to run. -/
inductive Alone (node : Node) : Progress → Prop
  | ended (outcome : Except Fault Json) : Alone node (.ended outcome)
  | calling {spec : TaskSpec} {call : Call} {left : Nat} {reply : Reply} {ticket due : Nat}
      {limit : Option Nat} (kind : node.kind = .task spec) :
      Alone node (.waiting (.calling node spec call left reply ticket due limit))
  | pausing {spec : TaskSpec} {call : Call} {left ticket due : Nat} (kind : node.kind = .task spec)
      (more : left ≠ 0) : Alone node (.waiting (.pausing node spec call left ticket due))
  | polling {spec : WaitSpec} {deadline : Option Nat} {ticket due : Nat}
      (kind : node.kind = .wait spec) :
      Alone node (.waiting (.polling node spec deadline ticket due))

/-- After an attempt a task still waits alone. -/
theorem alone_settle {spec : TaskSpec} (kind : node.kind = .task spec) {call : Call} {left : Nat}
    {again : RunState → RunState × Progress} (next : ∀ s, Alone node (again s).2) (s : RunState)
    (outcome : Except Fault Json) :
    Alone node (settle engine node spec call left again s outcome).2 := by
  unfold settle
  split
  · exact .ended _
  · cases outcome with
    | ok value => exact .ended _
    | error fault =>
      dsimp only
      split
      · exact .ended _
      · next more =>
        split
        · exact next _
        · exact .pausing kind more

/-- However often it is called, a task waits alone. -/
theorem alone_attempt {spec : TaskSpec} (kind : node.kind = .task spec) (call : Call) (left : Nat)
    (s : RunState) : Alone node (attempt engine node spec call left s).2 := by
  induction left generalizing s with
  | zero => exact .ended _
  | succ left ih =>
    simp only [attempt]
    split
    · exact alone_settle kind ih _ _
    · split
      · exact alone_settle kind ih _ _
      · exact .calling kind

theorem alone_poll {spec : WaitSpec} (kind : node.kind = .wait spec) (deadline : Option Nat)
    (s : RunState) : Alone node (poll engine node spec deadline s).2 := by
  unfold poll
  split
  · exact .ended _
  · split
    · exact .ended _
    · dsimp only
      split
      · exact .ended _
      · exact .polling kind

/-- What is below a task or a wait stays untouched. -/
theorem Alone.worked {context : Context} {progress : Progress} (h : Alone node progress)
    (below : ∀ child ∈ node.children, context.Untouched child) : context.Worked node progress := by
  cases h with
  | ended outcome =>
    exact .of_children (Context.Orderly.of_untouched below) fun child member =>
      (below child member).settled
  | calling kind => exact fun state => .calling kind state below
  | pausing kind more => exact fun state => .pausing kind state below more
  | polling kind => exact fun state => .polling kind state below

/-! ## Steps in turn -/

/-- A sequence is in the place of its steps. -/
theorem worked_asSequence (kind : node.kind = .sequence) {p : RunState × Course}
    (h : p.1.context.Passed node.children p.2) :
    (asSequence node p).1.context.Worked node (asSequence node p).2 := by
  obtain ⟨s, course⟩ := p
  cases course with
  | waiting done current rest =>
    obtain ⟨before, child, children, past, present, future⟩ := h
    exact fun state => .sequence kind state children past present future
  | ended outcome =>
    obtain ⟨turn, below⟩ := h.settled
    exact .of_children (.of_steps (.inl kind) turn) below

/-- Steps in turn start one after the other, each when those before are done. -/
theorem passed_startAll {nodes : List Node}
    (each : ∀ node ∈ nodes, ∀ s : RunState, s.context.Untouched node → node.ids.Nodup →
      (start engine s node).1.context.Placed node (start engine s node).2) (done : List Json) :
    ∀ s : RunState, s.context.cancelled = false → (∀ node ∈ nodes, s.context.Untouched node) →
      (Node.idsAll nodes).Nodup →
      (startAll engine done s nodes).1.context.Passed nodes (startAll engine done s nodes).2 := by
  induction nodes generalizing done with
  | nil =>
    intro s _ _ _
    rw [startAll]
    exact fun node member => absurd member List.not_mem_nil
  | cons node rest ih =>
    intro s live untouched distinct
    rw [List.forall_mem_cons] at each untouched
    have advance := advances_start engine node s
    have placed := each.1 s untouched.1 (Node.nodup_of_cons distinct).1
    have apart := Node.disjoint_of_cons distinct
    rw [startAll]
    generalize start engine s node = p at advance placed
    obtain ⟨s', progress⟩ := p
    have future : ∀ n ∈ rest, s'.context.Untouched n := fun n member =>
      advance.acts.untouched (Node.disjoint_of_mem (List.disjoint_symm apart) member)
        (untouched.2 n member)
    cases progress with
    | waiting current =>
      exact ⟨[], node, rfl, fun n member => absurd member List.not_mem_nil, placed, future⟩
    | ended outcome =>
      cases outcome with
      | error fault => exact .failed placed future
      | ok value =>
        have others : Proceeds engine (Node.idsAll rest) s'
            (startAll engine (done ++ [value]) s' rest) :=
          proceeds_startAll
            (fun n member s => (advances_start engine n s).mono (Node.idsAll_subset member)) _ s'
            advance.heeds
        refine (ih each.2 _ s' advance.heeds future (Node.nodup_of_cons distinct).2).cons ?_
        exact others.acts.done apart placed

/-! ## Branches -/

/-- A condition is in the place of its branch, beside which nothing has begun. -/
theorem worked_asBranch {text : String} (kind : node.kind = .condition text) {child : Node}
    {before after : List Node} (children : node.children = before ++ child :: after)
    {p : RunState × Progress} (others : ∀ n ∈ before ++ after, p.1.context.Untouched n)
    (h : p.1.context.Placed child p.2) :
    (asBranch node p).1.context.Worked node (asBranch node p).2 := by
  obtain ⟨s, progress⟩ := p
  cases progress with
  | waiting current => exact fun state => .branch kind state children others h
  | ended outcome =>
    refine .of_children (.of_condition kind ?_) fun n member => ?_
    · rw [children]
      exact Context.atMostOne_of_split others
    · rw [children, List.mem_append, List.mem_cons] at member
      rcases member with member | rfl | member
      · exact (others n (List.mem_append_left _ member)).settled
      · exact h.settled
      · exact (others n (List.mem_append_right _ member)).settled

/-- At most one node is started of those on the two sides. -/
theorem startBranch_eq (engine : Engine) (side : Branch) (s : RunState) (nodes : List Node) :
    startBranch engine side s nodes = (s, .ended (.ok .null)) ∨
      ∃ before child after, nodes = before ++ child :: after ∧
        startBranch engine side s nodes = start engine s child := by
  induction nodes with
  | nil =>
    rw [startBranch]
    exact .inl rfl
  | cons node rest ih =>
    rw [startBranch]
    split
    · exact .inr ⟨[], node, rest, rfl, rfl⟩
    · rcases ih with idle | ⟨before, child, after, rfl, started⟩
      · exact .inl idle
      · exact .inr ⟨node :: before, child, after, rfl, started⟩

/-- So is a condition that has just started its branch. -/
theorem worked_startBranch {text : String} (kind : node.kind = .condition text) (side : Branch)
    (each : ∀ child ∈ node.children, ∀ s : RunState, s.context.Untouched child → child.ids.Nodup →
      (start engine s child).1.context.Placed child (start engine s child).2)
    (untouched : ∀ child ∈ node.children, s.context.Untouched child)
    (distinct : (Node.idsAll node.children).Nodup) :
    (asBranch node (startBranch engine side s node.children)).1.context.Worked node
      (asBranch node (startBranch engine side s node.children)).2 := by
  rcases startBranch_eq engine side s node.children with
    idle | ⟨before, child, after, children, started⟩
  · rw [idle]
    exact .of_children (Context.Orderly.of_untouched untouched) fun child member =>
      (untouched child member).settled
  · rw [started]
    have member : child ∈ node.children := by
      rw [children]
      exact List.mem_append_right _ List.mem_cons_self
    have placed := each child member s (untouched child member) (Node.nodup_ids_of_mem distinct member)
    have acts := (advances_start engine child s).acts
    refine worked_asBranch kind children (fun n hn => ?_) placed
    rw [children] at distinct untouched
    have inside : n ∈ before ++ child :: after := by
      rcases List.mem_append.1 hn with hn | hn
      · exact List.mem_append_left _ hn
      · exact List.mem_append_right _ (List.mem_cons_of_mem _ hn)
    exact acts.untouched (fun _ => Node.id_notMem_of_split distinct hn) (untouched n inside)

/-! ## Loops -/

/-- A loop is in the place of the round that it is in. -/
theorem worked_rounds {spec : LoopSpec} (kind : node.kind = .loop spec)
    {body : RunState → RunState × Course}
    (round : ∀ s : RunState, s.context.cancelled = false →
      (∀ child ∈ node.children, s.context.Untouched child) →
      (body s).1.context.Passed node.children (body s).2)
    (heeds : ∀ s : RunState, s.context.cancelled = false →
      Heeds (body s).1.context.cancelled (body s).2.outcome?) (remaining : Nat) :
    ∀ (first : Bool) (finished : List Json) (s : RunState), s.context.cancelled = false →
      s.context.InTurn node.children → (∀ child ∈ node.children, s.context.Settled child) →
      (first = true → ∀ child ∈ node.children, s.context.Untouched child) →
      (rounds node spec body remaining first finished s).1.context.Worked node
        (rounds node spec body remaining first finished s).2 := by
  have settled {s : RunState} (turn : s.context.InTurn node.children)
      (below : ∀ child ∈ node.children, s.context.Settled child) : s.context.SettledBelow node :=
    .of_children (.of_steps (.inr ⟨spec, kind⟩) turn) below
  induction remaining with
  | zero => exact fun first finished s _ turn below _ => settled turn below
  | succ remaining ih =>
    intro first finished s live turn below untouched
    rw [rounds, if_neg (ne_true_of_eq_false live)]
    split
    · exact settled turn below
    · -- The body starts in the same state, or in one in which it is rearmed.
      have ready : ∃ s', (if first then s else s.rearm node.children) = s' ∧
          s'.context.cancelled = false ∧ ∀ child ∈ node.children, s'.context.Untouched child := by
        cases first with
        | true => exact ⟨s, rfl, live, untouched rfl⟩
        | false =>
          exact ⟨_, rfl, (s.cancelled_rearm _).trans live, fun _ => s.untouched_rearm⟩
      obtain ⟨s', heq, live', untouched'⟩ := ready
      rw [heq]
      have passed := round s' live' untouched'
      have heeds := heeds s' live'
      generalize body s' = p at passed heeds
      obtain ⟨s'', course⟩ := p
      cases course with
      | waiting done current rest =>
        obtain ⟨before, child, children, past, present, future⟩ := passed
        exact fun state => .loop kind state children past present future
      | ended outcome =>
        obtain ⟨turn, below⟩ := passed.settled
        have after := heeds_afterRound spec finished heeds
        dsimp only
        generalize afterRound spec finished outcome = next at after
        cases next with
        | inl outcome => exact settled turn below
        | inr finished =>
          refine ih false finished s'' after turn below fun again => ?_
          cases again

/-! ## Parallel blocks -/

/-- Nothing runs in a swept tree. -/
theorem settled_sweep {nodes : List Node} {n : Node} (h : s.context.Ordered n)
    (swept : n ∈ nodes ∨ s.context.Settled n) : (s.sweep nodes).context.Settled n := by
  rcases swept with member | settled
  · exact h.halt fun id hid =>
      (s.phase_sweep nodes id).trans (if_pos (Node.idsAll_subset member hid))
  · refine settled.keep fun id _ idle => congrArg Phase.state ((s.phase_sweep nodes id).trans ?_)
    rw [s.context.halted_of_ne idle, ite_self]

/-- A block that is stopped leaves its children at rest. -/
theorem worked_stop {spec : ParallelSpec} (kind : node.kind = .parallel spec)
    {before after : List (Lane Activity)} {queue : List Node} {child : Node}
    (children : ∀ n ∈ node.children,
      n = child ∨ n ∈ (before ++ after).map Lane.child ∨ n ∈ queue)
    (beside : s.context.Beside (before ++ after) queue) (settled : s.context.Settled child)
    (outcome : Except Fault Json) :
    (stop before after queue outcome s).1.context.Worked node
      (stop before after queue outcome s).2 := by
  refine .of_children (.of_parallel kind) fun n member => ?_
  rcases children n member with rfl | member | member
  · exact settled_sweep settled.ordered (.inr settled)
  · obtain ⟨lane, hlane, rfl⟩ := List.mem_map.1 member
    refine settled_sweep (beside.ordered lane hlane) ?_
    cases hlast : lane.unfinished? with
    | none => exact .inr (beside.settled lane hlane hlast)
    | some n =>
      refine .inl (List.mem_append_left _ ?_)
      rw [← List.filterMap_append, unfinished?_eq_some hlast]
      exact List.mem_filterMap.2 ⟨lane, hlane, hlast⟩
  · exact settled_sweep (beside.waiting n member).settled.ordered
      (.inl (List.mem_append_right _ member))

/-- The child in a lane stands between those of the lanes beside it. -/
theorem map_child_lanes (before : List (Lane Activity)) (lane : Lane Activity)
    (after : List (Lane Activity)) (queue : List Node) :
    (before ++ lane :: after).map Lane.child ++ queue =
      before.map Lane.child ++ lane.child :: after.map Lane.child ++ queue := by
  rw [List.map_append, List.map_cons]

/-- The child that enters next stands behind all lanes and before the queue. -/
theorem children_of_front {lanes : List (Lane Activity)} {child : Node} {rest : List Node}
    (children : node.children = lanes.map Lane.child ++ child :: rest) :
    node.children =
      lanes.map Lane.child ++ child :: ([] : List (Lane Activity)).map Lane.child ++ rest := by
  rw [children, List.append_assoc]
  rfl

/-- No other child of a block shares an id with one of them. -/
theorem apart_of_children {before after : List (Lane Activity)} {child : Node} {queue : List Node}
    (children : node.children = before.map Lane.child ++ child :: after.map Lane.child ++ queue)
    (distinct : (Node.idsAll node.children).Nodup) (n : Node)
    (member : n ∈ (before ++ after).map Lane.child ++ queue) : n.ids.Disjoint child.ids := by
  rw [children, List.append_assoc, List.cons_append] at distinct
  rw [List.map_append, List.append_assoc] at member
  exact fun _ => Node.id_notMem_of_split distinct member

/-- A block that waits has a lane in which a child runs, or a child may start. -/
theorem worked_parallel {spec : ParallelSpec} (kind : node.kind = .parallel spec)
    {lanes : List (Lane Activity)} {queue : List Node} {door : Option Nat}
    {firstError : Option Fault} {context : Context}
    (children : node.children = lanes.map Lane.child ++ queue)
    (inLanes : ∀ lane ∈ lanes, context.InLane lane) (waiting : ∀ n ∈ queue, context.Untouched n)
    (plain : PlainError firstError) (entry : door.isSome = true → queue ≠ [])
    (busy : door.isSome = true ∨ ∃ lane ∈ lanes, Lane.isRunning lane = true) :
    context.Worked node (.waiting (.parallel node spec lanes queue door firstError)) := by
  intro state
  refine .parallel kind state children
    (fun child activity member => inLanes (.running child activity) member)
    (fun child slot member => inLanes (.ended child slot) member) waiting plain entry
    (busy.imp_right ?_)
  rintro ⟨lane, member, running⟩
  cases lane with
  | ended child slot => cases running
  | running child activity => exact ⟨child, activity, member⟩

/-- Every block has a lane. -/
theorem laneLimit_pos (spec : ParallelSpec) (n : Nat) : 0 < laneLimit spec n :=
  Nat.lt_of_lt_of_le Nat.zero_lt_one (Nat.le_max_left ..)

/-- A block that goes on is in the place of its lanes and of its queue. -/
theorem worked_carryOn {spec : ParallelSpec} (kind : node.kind = .parallel spec) {limit : Nat}
    (positive : 0 < limit) {queue : List Node} (lanes : List (Lane Activity))
    {firstError : Option Fault} (s : RunState) (inLanes : ∀ lane ∈ lanes, s.context.InLane lane)
    (waiting : ∀ n ∈ queue, s.context.Untouched n)
    (children : node.children = lanes.map Lane.child ++ queue) (plain : PlainError firstError) :
    (carryOn node spec limit lanes firstError s queue).1.context.Worked node
      (carryOn node spec limit lanes firstError s queue).2 := by
  cases queue with
  | nil =>
    rw [carryOn]
    split
    · next busy =>
      exact worked_parallel kind children inLanes waiting plain
        (fun opened => absurd opened Bool.false_ne_true) (.inr (List.any_eq_true.1 busy))
    · next idle =>
      refine .of_children (.of_parallel kind) fun n member => ?_
      rw [children, List.append_nil] at member
      obtain ⟨lane, hlane, rfl⟩ := List.mem_map.1 member
      cases lane with
      | ended child slot => exact inLanes _ hlane
      | running child activity => exact absurd (List.any_eq_true.2 ⟨_, hlane, rfl⟩) idle
  | cons child rest =>
    rw [carryOn]
    split
    · next full =>
      have busy := List.countP_pos_iff.1 (Nat.lt_of_lt_of_le positive full)
      exact worked_parallel kind children inLanes waiting plain
        (fun opened => absurd opened Bool.false_ne_true) (.inr busy)
    · exact worked_parallel kind children inLanes waiting plain (fun _ => List.cons_ne_nil _ _)
        (.inl rfl)

/-- A block goes on after the end of a child, or it is stopped and its children are at rest. -/
theorem worked_afterChild {spec : ParallelSpec} (kind : node.kind = .parallel spec) {limit : Nat}
    (positive : 0 < limit) {before after : List (Lane Activity)} {child : Node} {queue : List Node}
    {firstError : Option Fault} {outcome : Except Fault Json} (plain : PlainError firstError)
    (children : node.children = before.map Lane.child ++ child :: after.map Lane.child ++ queue)
    (beside : s.context.Beside (before ++ after) queue) (settled : s.context.Settled child)
    (heeds : Heeds s.context.cancelled (some outcome)) :
    (afterChild node spec limit queue firstError s before child outcome after).1.context.Worked node
      (afterChild node spec limit queue firstError s before child outcome after).2 := by
  have heeds := heeds_judge spec plain child heeds
  unfold afterChild
  generalize judge spec firstError child outcome = verdict at heeds
  cases verdict with
  | goOn slot firstError =>
    have inLanes := beside.inLanes heeds.1
    refine worked_carryOn kind positive _ s (fun lane member => ?_) beside.waiting ?_ heeds.2
    · rw [List.append_assoc, List.singleton_append, List.mem_append, List.mem_cons] at member
      rcases member with member | rfl | member
      · exact inLanes lane (List.mem_append_left _ member)
      · exact settled
      · exact inLanes lane (List.mem_append_right _ member)
    · rw [children, List.append_assoc before, List.map_append, List.map_append, List.map_singleton]
      rfl
  | stop outcome =>
    refine worked_stop kind (fun n member => ?_) beside settled outcome
    rw [children, List.mem_append, List.mem_append, List.mem_cons] at member
    rw [List.map_append, List.mem_append]
    tauto

/-! ## Nodes -/

/-- The work of a node leaves it in the place of what is below it. -/
theorem worked_work
    (each : ∀ child ∈ node.children, ∀ s : RunState, s.context.Untouched child → child.ids.Nodup →
      (start engine s child).1.context.Placed child (start engine s child).2)
    (s : RunState) (live : s.context.cancelled = false)
    (untouched : ∀ child ∈ node.children, s.context.Untouched child)
    (distinct : (Node.idsAll node.children).Nodup) :
    (work engine node s).1.context.Worked node (work engine node s).2 := by
  have steps (s : RunState) (live : s.context.cancelled = false)
      (untouched : ∀ child ∈ node.children, s.context.Untouched child) :=
    passed_startAll each [] s live untouched distinct
  have below (acts : Acts engine .heeding [] s (work engine node s).1) (child : Node)
      (member : child ∈ node.children) : (work engine node s).1.context.Untouched child :=
    acts.untouched (fun _ _ => List.not_mem_nil) (untouched child member)
  revert below
  unfold work
  split
  · next spec kind =>
    intro below
    exact (alone_attempt kind _ _ s).worked (below (advances_attempt node _ _ _ s live).acts)
  · next kind =>
    intro _
    exact worked_asSequence kind (steps s live untouched)
  · next spec kind =>
    intro _
    exact worked_carryOn kind (laneLimit_pos ..) [] s nofun untouched rfl nofun
  · next text kind =>
    intro _
    exact worked_startBranch kind _ each untouched distinct
  · next spec kind =>
    intro _
    refine worked_rounds kind steps (fun s live => ?_) _ true [] s live
      (Context.inTurn_of_untouched untouched) (fun child member => (untouched child member).settled)
      fun _ => untouched
    exact (proceeds_startAll (fun child member s => (advances_start engine child s).mono
      (Node.idsAll_subset member)) [] s live).heeds
  · next spec kind =>
    intro below
    exact (alone_poll kind _ s).worked (below (advances_poll node _ _ s).acts)

/-- The end of a node is recorded once what is below it is at rest. -/
theorem placed_close {p : RunState × Progress} (h : p.1.context.Worked node p.2)
    (top : p.1.context.state node.id = .running ∨
      p.1.context.state node.id = .cancelled ∧ p.1.context.cancelled = true)
    (heeds : Heeds p.1.context.cancelled p.2.outcome?) (distinct : node.ids.Nodup) :
    (close node p).1.context.Placed node (close node p).2 := by
  obtain ⟨s, progress⟩ := p
  cases progress with
  | waiting activity =>
    refine h (top.resolve_right fun dead => ?_)
    have live : s.context.cancelled = false := heeds
    rw [live] at dead
    cases dead.2
  | ended outcome =>
    have phase (id : String) := s.phase_record node.id id outcome
    have below : (s.record node.id outcome).context.SettledBelow node := by
      refine h.keep fun id hid => congrArg Phase.state ((phase id).trans (if_neg ?_))
      rintro rfl
      exact Node.id_notMem_children distinct hid
    have own : (s.record node.id outcome).context.state node.id = (s.closed node.id outcome).state :=
      congrArg Phase.state ((phase node.id).trans (if_pos rfl))
    cases outcome with
    | ok value =>
      have running : s.context.state node.id = .running := by
        refine top.resolve_right fun dead => ?_
        have live : s.context.cancelled = false := heeds
        rw [live] at dead
        cases dead.2
      have completed : (s.record node.id (.ok value)).context.state node.id = .completed :=
        own.trans (s.state_closed running (.ok value))
      refine ⟨below.settled ?_, completed⟩
      rw [completed]
      decide
    | error fault =>
      refine below.settled ?_
      rw [own]
      rcases top with running | ⟨cancelled, -⟩
      · rw [s.state_closed running]
        dsimp only
        split <;> decide
      · have idle : s.context.state node.id ≠ .running := by
          rw [cancelled]
          decide
        rw [s.closed_of_ne idle]
        exact idle

/-- A node of an untouched tree leaves the tree in the states that its progress tells. -/
theorem placed_start (engine : Engine) (node : Node) (s : RunState)
    (untouched : s.context.Untouched node) (distinct : node.ids.Nodup) :
    (start engine s node).1.context.Placed node (start engine s node).2 := by
  induction node using Node.induction generalizing s with
  | step node ih =>
    rw [start_eq]
    by_cases dead : s.context.cancelled = true
    · rw [if_pos dead]
      exact Context.Untouched.settled fun id hid =>
        (s.phase_touch node.id id).trans (untouched id hid)
    · rw [if_neg dead]
      have live : (s.startNode node).context.cancelled = false := eq_false_of_ne_true dead
      have outside := Node.id_notMem_children distinct
      obtain ⟨own, below⟩ := s.startNode_of_untouched untouched distinct
      have advance := advances_work node (fun child _ => advances_start engine child)
        (s.startNode node) live
      have worked := worked_work ih (s.startNode node) live below
        (Node.nodup_children distinct)
      exact placed_close worked ((advance.acts.leftAlone outside).running_or_cancelled own)
        advance.heeds distinct

end Run

end Stepwise

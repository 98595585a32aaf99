import Stepwise.Proofs.Run.Above
import Stepwise.Proofs.Run.LawfulRun

/-!
# The trail of a node

The events of one node are blocks: the start, the attempts that failed and were tried again, and
then at most one end. The last block tells how far the node has come, so a node that runs is one
that was told to have started and not to have ended since. A node below another starts only while
that one runs.
-/

namespace Stepwise

/-! ## Blocks -/

/-- What may be told of the end of a node. -/
inductive Finish where
  | completed (output : Json) (millis : Nat)
  | failed (error : String) (millis : Nat)
  | cancelled

/-- The event that tells of an end. -/
def Finish.event (id : String) : Finish → Event
  | .completed output millis => .nodeCompleted id output millis
  | .failed error millis => .nodeFailed id error millis
  | .cancelled => .nodeCancelled id

/-- What is told of a node from one start to the next: the errors of the attempts that were tried
again, and the end if one is told. -/
structure Block where
  nodeType : NodeType
  errors : List String
  finish : Option Finish

namespace Block

/-- The retries, with their numbers from 1, and the end. -/
def later (id : String) (block : Block) : List Event :=
  block.errors.mapIdx (fun tried error => .taskRetrying id (tried + 1) error) ++
    (block.finish.map (Finish.event id)).toList

/-- The events of one execution of a node, in their order. -/
def events (id : String) (block : Block) : List Event :=
  .nodeStarted id block.nodeType :: block.later id

variable (id : String) {block : Block}

/-- Another attempt adds its event to those of an execution. -/
theorem events_retry (going : block.finish = none) (error : String) :
    events id { block with errors := block.errors ++ [error] } =
      block.events id ++ [.taskRetrying id (block.errors.length + 1) error] := by
  simp [events, later, going, List.mapIdx_append]

/-- The end of an execution adds its event. -/
theorem events_close (going : block.finish = none) (finish : Finish) :
    events id { block with finish := some finish } = block.events id ++ [finish.event id] := by
  simp [events, later, going]

/-- After its start an execution tells of attempts and of its end. -/
theorem mem_later {event : Event} (member : event ∈ block.later id) :
    (∃ attempt error, event = .taskRetrying id attempt error) ∨
      ∃ finish : Finish, block.finish = some finish ∧ event = finish.event id := by
  rcases List.mem_append.1 member with member | member
  · obtain ⟨tried, _, rfl⟩ := List.mem_mapIdx.1 member
    exact .inl ⟨_, _, rfl⟩
  · cases ends : block.finish with
    | none => simp [ends] at member
    | some finish => exact .inr ⟨finish, rfl, by simpa [ends] using member⟩

end Block

/-- What may be told of an ending. That a node was cancelled may be left out. -/
inductive Ending.ToldBy (result : Json) : Ending → Option Finish → Prop
  | completed (millis : Nat) : ToldBy result .completed (some (.completed result millis))
  | failed (error : String) (millis : Nat) :
      ToldBy result (.failed error) (some (.failed error millis))
  | cancelled (error : Option String) : ToldBy result (.cancelled error) (some .cancelled)
  | silent (error : Option String) : ToldBy result (.cancelled error) none

/-- The last block tells how far a node has come. -/
inductive Phase.ToldBy (blocks : List Block) : Phase → Prop
  | pending : ToldBy blocks .pending
  | running {since retries : Nat} {front : List Block} {last : Block}
      (split : blocks = front ++ [last]) (count : last.errors.length = retries)
      (going : last.finish = none) : ToldBy blocks (.running since retries)
  | ended {since till retries : Nat} {front : List Block} {last : Block} {ending : Ending}
      {result : Json} (split : blocks = front ++ [last]) (count : last.errors.length = retries)
      (told : ending.ToldBy result last.finish) :
      ToldBy blocks (.ended since till retries ending result)

/-! ## Trails -/

/-- The events of a node. -/
def trail (id : String) (events : List Event) : List Event :=
  events.filter (fun event => event.nodeId? = some id)

/-- An event tells that a node has ended. -/
def Event.Ends (id : String) (event : Event) : Prop := ∃ finish : Finish, event = finish.event id

/-- What has been told since the last start of a node. -/
def Since (id : String) (events since : List Event) : Prop :=
  ∃ earlier nodeType, events = earlier ++ .nodeStarted id nodeType :: since ∧
    ∀ nodeType, .nodeStarted id nodeType ∉ since

/-- A node was told to have started, and not to have ended since. -/
def Unended (id : String) (events : List Event) : Prop :=
  ∃ since, Since id events since ∧ ∀ event ∈ since, ¬ event.Ends id

@[simp] theorem Finish.nodeId?_event (id : String) (finish : Finish) :
    (finish.event id).nodeId? = some id := by
  cases finish <;> rfl

@[simp] theorem Ending.nodeId?_event (ending : Ending) (id : String) (result : Json)
    (millis : Nat) : (ending.event id result millis).nodeId? = some id := by
  cases ending <;> rfl

/-- How an ending is told, if it is told. -/
theorem Ending.exists_finish (ending : Ending) (id : String) (result : Json) (millis : Nat) :
    ∃ finish : Finish, ending.event id result millis = finish.event id ∧
      ending.ToldBy result (some finish) := by
  cases ending with
  | completed => exact ⟨.completed result millis, rfl, .completed millis⟩
  | failed error => exact ⟨.failed error millis, rfl, .failed error millis⟩
  | cancelled error => exact ⟨.cancelled, rfl, .cancelled error⟩

section

variable {id : String} {events : List Event} {event : Event}

/-- The trail of what is told is made of trails. -/
theorem trail_append (id : String) (events more : List Event) :
    trail id (events ++ more) = trail id events ++ trail id more := List.filter_append ..

theorem trail_tell (own : event.nodeId? = some id) :
    trail id (events ++ [event]) = trail id events ++ [event] := by
  rw [trail_append]
  simp [trail, own]

theorem trail_tell_of_ne (other : event.nodeId? ≠ some id) :
    trail id (events ++ [event]) = trail id events := by
  rw [trail_append]
  simp [trail, other]

/-- Where the trail of a node ends in a block, that block has been told since its last start. -/
theorem exists_since {front : List Event} {block : Block}
    (told : trail id events = front ++ block.events id) :
    ∃ since, Since id events since ∧ trail id since = block.later id := by
  obtain ⟨before, after, rfl, -, rest⟩ := List.filter_eq_append_iff.1 told
  obtain ⟨others, since, rfl, -, -, later⟩ := List.filter_eq_cons_iff.1 rest
  refine ⟨since, ⟨before ++ others, block.nodeType, by simp, fun nodeType member => ?_⟩, later⟩
  have inside : .nodeStarted id nodeType ∈ block.later id := by
    rw [← later]
    exact List.mem_filter.2 ⟨member, by simp [Event.nodeId?]⟩
  rcases block.mem_later id inside with ⟨_, _, same⟩ | ⟨finish, -, same⟩
  · cases same
  · cases finish <;> cases same

namespace Phase

/-- The events of a node are blocks, and the last of them tells how far it has come. -/
def Trail (phase : Phase) (id : String) (events : List Event) : Prop :=
  ∃ blocks : List Block, trail id events = blocks.flatMap (Block.events id) ∧ phase.ToldBy blocks

variable {phase : Phase} {since retries : Nat}

/-- Of what has not begun nothing is told. -/
theorem Trail.empty (id : String) : Phase.pending.Trail id [] := ⟨[], rfl, .pending⟩

/-- What is told of others is not in the trail of a node. -/
theorem Trail.aside (h : phase.Trail id events) (other : event.nodeId? ≠ some id) :
    phase.Trail id (events ++ [event]) := by
  obtain ⟨blocks, told, last⟩ := h
  exact ⟨blocks, (trail_tell_of_ne other).trans told, last⟩

/-- A node that is rearmed keeps its trail; its next start begins a block. -/
theorem Trail.rearm (h : phase.Trail id events) : Phase.pending.Trail id events := by
  obtain ⟨blocks, told, -⟩ := h
  exact ⟨blocks, told, .pending⟩

/-- A start begins a block. -/
theorem Trail.begin (h : phase.Trail id events) (now : Nat) (nodeType : NodeType) :
    (Phase.running now 0).Trail id (events ++ [.nodeStarted id nodeType]) := by
  obtain ⟨blocks, told, -⟩ := h
  refine ⟨blocks ++ [⟨nodeType, [], none⟩], ?_, .running rfl rfl rfl⟩
  rw [trail_tell rfl, told, List.flatMap_append]
  rfl

/-- The last block of a node that runs goes on. -/
theorem Trail.exists_going (h : phase.Trail id events) (runs : phase.state = .running) :
    ∃ (since : Nat) (front : List Block) (last : Block),
      phase = .running since last.errors.length ∧ last.finish = none ∧
      trail id events = front.flatMap (Block.events id) ++ last.events id := by
  obtain ⟨blocks, told, last⟩ := h
  cases last with
  | pending => cases runs
  | @running since _ front last split count going =>
    subst split count
    refine ⟨since, front, last, rfl, going, ?_⟩
    rw [told, List.flatMap_append, List.flatMap_singleton]
  | @ended _ _ _ _ _ ending =>
    exact absurd runs (NodeState.isTerminal_iff.1 (isTerminal_state ending)).2

/-- A node that runs is told something more. -/
theorem Trail.tell (own : event.nodeId? = some id) {front : List Block} {last next : Block}
    (told : trail id events = front.flatMap (Block.events id) ++ last.events id)
    (more : next.events id = last.events id ++ [event]) (ends : phase.ToldBy (front ++ [next])) :
    phase.Trail id (events ++ [event]) := by
  refine ⟨front ++ [next], ?_, ends⟩
  rw [trail_tell own, told, List.flatMap_append, List.flatMap_singleton, more, List.append_assoc]

/-- An attempt is told in the block of its execution, with its number. -/
theorem Trail.retry (h : (Phase.running since retries).Trail id events) (error : String) :
    (Phase.running since (retries + 1)).Trail id
      (events ++ [.taskRetrying id (retries + 1) error]) := by
  obtain ⟨since', front, last, same, going, told⟩ := h.exists_going rfl
  cases same
  exact .tell rfl told (Block.events_retry id going error) (.running rfl List.length_append going)

/-- An end closes the block of its execution, with what it came to. -/
theorem Trail.close (h : phase.Trail id events) (runs : phase.state = .running) (till : Nat)
    (ending : Ending) (result : Json) (millis : Nat) :
    (phase.finish till ending result).Trail id (events ++ [ending.event id result millis]) := by
  obtain ⟨since, front, last, rfl, going, told⟩ := h.exists_going runs
  obtain ⟨finish, event, ends⟩ := ending.exists_finish id result millis
  rw [event]
  exact .tell (finish.nodeId?_event id) told (Block.events_close id going finish)
    (.ended rfl rfl ends)

/-- A node that is halted has a trail though nothing is told. -/
theorem Trail.halt (h : phase.Trail id events) (now : Nat) (value result : Json) :
    (phase.finish now (cancelEnding value) result).Trail id events := by
  obtain ⟨blocks, told, last⟩ := h
  refine ⟨blocks, told, ?_⟩
  cases last with
  | pending => exact .pending
  | running split count going => exact .ended split count (going ▸ .silent _)
  | @ended since till retries _ _ ending result' split count ends =>
    have idle : (Phase.ended since till retries ending result').state ≠ .running :=
      (NodeState.isTerminal_iff.1 (isTerminal_state ending)).2
    rw [finish_of_ne idle]
    exact .ended split count ends

/-- A node that runs has been told to have started, and not to have ended since. -/
theorem Trail.unended (h : phase.Trail id events) (runs : phase.state = .running) :
    Unended id events := by
  obtain ⟨-, front, last, -, going, told⟩ := h.exists_going runs
  obtain ⟨since, start, later⟩ := exists_since told
  refine ⟨since, start, ?_⟩
  rintro _ member ⟨finish, rfl⟩
  have inside : finish.event id ∈ last.later id := by
    rw [← later]
    exact List.mem_filter.2 ⟨member, by simp⟩
  rcases last.mem_later id inside with ⟨_, _, same⟩ | ⟨_, ends, -⟩
  · cases finish <;> cases same
  · rw [going] at ends
    cases ends

end Phase

end

/-! ## What a run tells -/

/-- What a run of a tree tells: of each node a trail, of a node below another that it starts while
the other is told to run, and of no node outside the tree. -/
structure Tale (root : Node) (s : RunState) (events : List Event) : Prop where
  trails : ∀ id, (s.context.phase id).Trail id events
  nested : ∀ parent ∈ root.preorder, ∀ child ∈ parent.children, ∀ front nodeType back,
    events = front ++ .nodeStarted child.id nodeType :: back → Unended parent.id front
  known : ∀ event ∈ events, ∃ node ∈ root.preorder, event.nodeId? = some node.id

variable {root : Node} {manner : Manner} {ids : List String} {s s' : RunState}
  {events : List Event} {event : Event}

namespace Tale

/-- One more event. Only a start has to be below a node that runs. -/
theorem tell (tale : Tale root s events)
    (trails : ∀ id, (s'.context.phase id).Trail id (events ++ [event]))
    (starts : ∀ parent ∈ root.preorder, ∀ child ∈ parent.children, ∀ nodeType,
      event = .nodeStarted child.id nodeType → Unended parent.id events)
    (known : ∃ node ∈ root.preorder, event.nodeId? = some node.id) :
    Tale root s' (events ++ [event]) := by
  refine ⟨trails, ?nested, fun other told => ?known⟩
  case nested =>
    intro parent inside child member front nodeType back split
    rcases List.eq_nil_or_concat back with rfl | ⟨back, last, rfl⟩
    · obtain ⟨rfl, same⟩ := List.append_inj' split rfl
      exact starts parent inside child member nodeType (List.singleton_inj.1 same)
    · rw [List.concat_eq_append, ← List.cons_append, ← List.append_assoc] at split
      exact tale.nested parent inside child member front nodeType back
        (List.append_inj' split rfl).1
  case known =>
    rcases List.mem_append.1 told with told | told
    · exact tale.known other told
    · rw [List.mem_singleton.1 told]
      exact known

theorem unended_of_running (tale : Tale root s events) {id : String}
    (running : s.context.state id = .running) : Unended id events :=
  (tale.trails id).unended running

/-- Nothing is told. -/
theorem quiet (tale : Tale root s events) (trails : ∀ id, (s'.context.phase id).Trail id events) :
    Tale root s' (events ++ []) := by
  rw [List.append_nil]
  exact ⟨trails, tale.nested, tale.known⟩

end Tale

/-- Whatever is done within a tree goes on with its tale. -/
theorem Alters.tale (alters : Alters root ids s s') (distinct : root.ids.Nodup)
    (upward : s.context.Upward root) (tale : Tale root s events) :
    ∃ told, s.world.Tells s'.world told ∧ Tale root s' (events ++ told) := by
  cases alters with
  | quiet same tells => exact ⟨[], tells, tale.quiet fun id => same id ▸ tale.trails id⟩
  | halt _ phases tells =>
    exact ⟨[], tells, tale.quiet fun id => phases id ▸ (tale.trails id).halt ..⟩
  | @begin node inside _ _ above phases tells =>
    refine ⟨_, tells, tale.tell (fun id => ?_) ?_ ⟨node, inside, rfl⟩⟩
    · rw [phases]
      split
      · next own => exact own ▸ (tale.trails node.id).begin ..
      · next other => exact (tale.trails id).aside fun own => other (Option.some.inj own)
    · intro parent inside' child member nodeType same
      obtain ⟨same, -⟩ := Event.nodeStarted.inj same
      rcases above with rfl | ⟨other, within, member', runs⟩
      · have deep := Node.id_mem_idsAll_children inside' member
        rw [← same] at deep
        exact absurd deep (Node.id_notMem_children distinct)
      · obtain rfl := Node.parent_unique distinct within inside' member' member same
        exact tale.unended_of_running runs
  | @retry node since retries error inside _ running phases tells =>
    refine ⟨_, tells, tale.tell (fun id => ?_) (fun _ _ _ _ _ same => ?_) ⟨node, inside, rfl⟩⟩
    · rw [phases]
      split
      · next own =>
        subst own
        exact (running ▸ tale.trails node.id).retry error
      · next other => exact (tale.trails id).aside fun own => other (Option.some.inj own)
    · cases same
  | @rearm node _ _ phases tells =>
    refine ⟨[], tells, tale.quiet fun id => ?_⟩
    rw [phases]
    split
    · exact (tale.trails id).rearm
    · exact tale.trails id
  | @close node millis ending result inside _ running _ phases tells =>
    refine ⟨_, tells, tale.tell (fun id => ?_) (fun _ _ _ _ _ same => ?_) ⟨node, inside, by simp⟩⟩
    · rw [phases]
      split
      · next own =>
        subst own
        exact (tale.trails node.id).close running ..
      · next other =>
        refine (tale.trails id).aside fun own => other ?_
        rw [Ending.nodeId?_event] at own
        exact Option.some.inj own
    · cases ending <;> cases same
  | @drop parent child inside member _ busy phases tells =>
    have within := Node.mem_preorder_child inside member
    refine ⟨_, tells, tale.tell (fun id => ?_) (fun _ _ _ _ _ same => ?_) ⟨child, within, rfl⟩⟩
    · rw [phases]
      by_cases own : child.id = id
      · -- The child runs, since something in its tree does.
        subst own
        obtain ⟨_, hid, runs⟩ := busy
        obtain ⟨n, below, rfl⟩ := Node.mem_ids.1 hid
        rw [if_pos child.mem_ids_self]
        exact (tale.trails child.id).close (upward.above within below runs) _ _ _ 0
      · refine Phase.Trail.aside ?_ fun same => own (Option.some.inj same)
        split
        · exact (tale.trails id).halt ..
        · exact tale.trails id
    · cases same

/-- From a state in which no node of the tree has started, changes tell a tale. -/
theorem Changes.tale (changes : Changes root manner ids s s') (distinct : root.ids.Nodup)
    (fresh : ∀ id, s.context.phase id = .pending) :
    ∃ events, s.world.Tells s'.world events ∧ Tale root s' events := by
  have upward : s.context.Upward root := .of_untouched fun id _ => fresh id
  induction changes with
  | refl =>
    refine ⟨[], .of_eq rfl, fun id => ?_, fun _ _ _ _ _ _ _ split => ?_, fun _ told => ?_⟩
    · rw [fresh]
      exact .empty id
    · simp at split
    · cases told
  | tail before change ih =>
    obtain ⟨events, tells, tale⟩ := ih
    have upward := Changes.upward before distinct upward
    obtain ⟨told, tells', tale'⟩ := change.alters.tale distinct upward tale
    exact ⟨events ++ told, tells.trans tells', tale'⟩

namespace Run

variable {engine : Engine} {limit : Option Duration} {s₀ : RunState}

/-- However far a run of a tree with distinct ids has come, the events of each node are blocks of
which the last tells how far it has come, and what is below a node starts while the node runs. -/
theorem trails_told {p : RunState × Stage} (h : Reaches engine root limit s₀ p)
    (nodes : s₀.context.nodes = []) (distinct : root.ids.Nodup) :
    ∃ events, s₀.world.Tells p.1.world events ∧
      (∀ id, ∃ blocks : List Block, trail id events = blocks.flatMap (Block.events id) ∧
        (p.1.context.phase id).ToldBy blocks) ∧
      (∀ parent ∈ root.preorder, ∀ child ∈ parent.children, ∀ front nodeType back,
        events = front ++ .nodeStarted child.id nodeType :: back → Unended parent.id front) ∧
      ∀ event ∈ events, ∃ node ∈ root.preorder, event.nodeId? = some node.id := by
  have untouched := s₀.context.untouched_of_nodes nodes root
  have fresh := s₀.context.phase_of_nodes nodes
  obtain ⟨events, tells, tale⟩ := Changes.tale (h.kept untouched distinct).changes distinct fresh
  exact ⟨events, tells, tale.trails, tale.nested, tale.known⟩

/-- Half way through, the first of the pair has told one block, which has ended. -/
theorem trails_told_halfway : pair.ids.Nodup ∧ Reaches slow pair none outset halfway ∧
    ∃ events, outset.world.Tells halfway.1.world events ∧
      ∃ blocks : List Block, trail "first" events = blocks.flatMap (Block.events "first") ∧
        (Phase.ended 0 5 0 .completed .null).ToldBy blocks := by
  have distinct : pair.ids.Nodup := by decide
  obtain ⟨events, tells, trails, -⟩ := trails_told reaches_halfway rfl distinct
  exact ⟨distinct, reaches_halfway, events, tells, trails "first"⟩

end Run

end Stepwise

import Stepwise.Proofs.Run.Placement
import Stepwise.Proofs.Run.Values
import Stepwise.Run.Resume

/-!
# What starting collects

A node of an untouched tree that starts comes to a value that is put together from those of its
children, or waits with those it has collected so far: `valued_start`. This goes through the tree
like `placed_start`, and rests on the same fact: while one part of a tree acts, whatever has ended
in the others stays as it is.
-/

namespace Stepwise

namespace Context

variable (context : Context)

/-- What a node comes to agrees with the value that is kept of it. -/
def Agrees (node : Node) : Progress → Prop
  | .ended (.ok value) => context.Yields node value
  | .ended (.error fault) => fault.isCancelled = false → context.Fails node fault
  | .waiting activity => context.Holds node activity

/-- A node has come to some progress, with the values of its tree in agreement. -/
structure Valued (node : Node) (progress : Progress) : Prop where
  tallied : context.Tallied node
  agrees : context.Agrees node progress

/-- What a node comes to, before its end is recorded, is put together from its children. -/
def Sum (node : Node) : Progress → Prop
  | .ended (.ok value) => context.Sums node value
  | .ended (.error _) => True
  | .waiting activity => context.Holds node activity

/-- Likewise for a node whose end is not recorded yet. -/
structure Composed (node : Node) (progress : Progress) : Prop where
  tallied : ∀ child ∈ node.children, context.Tallied child
  sum : context.Sum node progress

/-- What steps in turn have come to are their values. -/
def Lists (nodes : List Node) : Course → Prop
  | .ended (.ok values) => List.Forall₂ context.Yields nodes values
  | .ended (.error _) => True
  | .waiting done current rest => ∃ before child, nodes = before ++ child :: rest ∧
      List.Forall₂ context.Yields before done ∧ context.Holds child current

/-- Likewise for steps in turn. -/
structure Collected (nodes : List Node) (course : Course) : Prop where
  tallied : ∀ node ∈ nodes, context.Tallied node
  lists : context.Lists nodes course

/-- What a lane of a block tells about the value of its child. -/
def Slots : Lane Activity → Prop
  | .running child activity => context.Holds child activity
  | .ended child slot => context.Fills child slot

/-- Likewise for a lane of a block. -/
structure Lined (lane : Lane Activity) : Prop where
  tallied : context.Tallied lane.child
  slots : context.Slots lane

variable {context} {node : Node}

/-- The value of a kind of node that is put together from nothing. -/
theorem Sums.of_loop {spec : LoopSpec} (kind : node.kind = .loop spec) (value : Json) :
    context.Sums node value := by
  simp only [Sums, kind]

/-- The lanes of a block that have all ended fill its value. -/
theorem fills_lanes {lanes : List (Lane Activity)} (lined : ∀ lane ∈ lanes, context.Lined lane)
    (idle : ¬lanes.any Lane.isRunning = true) :
    List.Forall₂ context.Fills (lanes.map Lane.child) (lanes.map Lane.slot) := by
  rw [List.forall₂_map_left_iff, List.forall₂_map_right_iff, List.forall₂_same]
  intro lane member
  have slots := (lined lane member).slots
  cases lane with
  | ended child slot => exact slots
  | running child activity => exact absurd (List.any_eq_true.2 ⟨_, member, rfl⟩) idle

end Context

/-! ## Other parts of the tree -/

namespace Acts

variable {engine : Engine} {manner : Manner} {ids : List String} {s s' : RunState} {node : Node}

theorem tallied (acts : Acts engine manner ids s s') (apart : node.ids.Disjoint ids)
    (h : s.context.Tallied node) : s'.context.Tallied node :=
  h.keep fun _ hid => (acts.leftAlone (apart hid)).steady

theorem yields (acts : Acts engine manner ids s s') (apart : node.ids.Disjoint ids) {value : Json}
    (h : s.context.Yields node value) : s'.context.Yields node value :=
  h.keep (acts.leftAlone (apart node.mem_ids_self)).phase_eq

theorem yieldsAll (acts : Acts engine manner ids s s') {nodes : List Node} {values : List Json}
    (apart : ∀ node ∈ nodes, node.ids.Disjoint ids)
    (h : List.Forall₂ s.context.Yields nodes values) :
    List.Forall₂ s'.context.Yields nodes values :=
  Context.forall₂_imp_of_mem h fun node member _ yields => acts.yields (apart node member) yields

theorem lined (acts : Acts engine manner ids s s') {lane : Lane Activity}
    (apart : lane.child.ids.Disjoint ids) (h : s.context.Lined lane) : s'.context.Lined lane := by
  refine ⟨acts.tallied apart h.tallied, ?_⟩
  cases lane with
  | running child activity =>
    exact Context.Holds.keep h.slots fun _ hid => (acts.leftAlone (apart hid)).phase_eq
  | ended child slot =>
    exact Context.Fills.keep h.slots (acts.leftAlone (apart child.mem_ids_self)).phase_eq

end Acts

namespace Run

variable {engine : Engine} {s : RunState} {node : Node}

/-! ## Tasks and waits -/

/-- Nothing is collected by a node that has nothing below it to run. -/
theorem Alone.composed {context : Context} {progress : Progress} (h : Alone node progress)
    (kind : (∃ spec, node.kind = .task spec) ∨ ∃ spec, node.kind = .wait spec)
    (tallied : ∀ child ∈ node.children, context.Tallied child) :
    context.Composed node progress := by
  refine ⟨tallied, ?_⟩
  cases h with
  | ended outcome =>
    cases outcome with
    | error fault => trivial
    | ok value =>
      rcases kind with ⟨spec, kind⟩ | ⟨spec, kind⟩
      · simp only [Context.Sum, Context.Sums, kind]
      · simp only [Context.Sum, Context.Sums, kind]
  | calling _ => exact .calling
  | pausing _ _ => exact .pausing
  | polling _ => exact .polling

/-! ## Steps in turn -/

/-- A sequence whose steps have ended well is worth the list of their values. -/
theorem composed_asSequence (kind : node.kind = .sequence) {p : RunState × Course}
    (h : p.1.context.Collected node.children p.2) :
    (asSequence node p).1.context.Composed node (asSequence node p).2 := by
  obtain ⟨s, course⟩ := p
  refine ⟨?_, ?_⟩
  · cases course <;> exact h.tallied
  cases course with
  | waiting done current rest =>
    obtain ⟨before, child, children, past, present⟩ := h.lists
    exact .sequence children past present
  | ended outcome =>
    cases outcome with
    | error fault => trivial
    | ok values =>
      have each : List.Forall₂ s.context.Yields node.children values := h.lists
      simp only [asSequence, Except.map, Context.Sum, Context.Sums, kind]
      exact ⟨values, rfl, each⟩

/-- Steps are started one after another as one goes on after another. -/
theorem startAll_cons (engine : Engine) (done : List Json) (s : RunState) (node : Node)
    (rest : List Node) :
    startAll engine done s (node :: rest) = andThen engine done rest (start engine s node) := by
  rw [startAll]
  obtain ⟨s', progress⟩ := start engine s node
  cases progress with
  | waiting current => rfl
  | ended outcome => cases outcome <;> rfl

/-- A step between those done and the rest adds its value to theirs, and so may the rest. -/
theorem collected_andThen {done : List Json} {before rest : List Node} {child : Node}
    (tallied : ∀ n ∈ before, s.context.Tallied n)
    (past : List.Forall₂ s.context.Yields before done)
    (future : ∀ n ∈ rest, s.context.Untouched n)
    (distinct : (Node.idsAll (before ++ child :: rest)).Nodup) {p : RunState × Progress}
    (advance : Advances engine child.ids s p) (valued : p.1.context.Valued child p.2)
    (next : ∀ (value : Json) (s' : RunState), s'.context.cancelled = false →
      (∀ n ∈ rest, s'.context.Untouched n) → (∀ n ∈ before ++ [child], s'.context.Tallied n) →
      List.Forall₂ s'.context.Yields (before ++ [child]) (done ++ [value]) →
      (startAll engine (done ++ [value]) s' rest).1.context.Collected ((before ++ [child]) ++ rest)
        (startAll engine (done ++ [value]) s' rest).2) :
    (andThen engine done rest p).1.context.Collected (before ++ child :: rest)
      (andThen engine done rest p).2 := by
  have apart (n : Node) (member : n ∈ before ++ rest) : n.ids.Disjoint child.ids :=
    fun _ => Node.id_notMem_of_split distinct member
  have apartBefore (n : Node) (member : n ∈ before) := apart n (List.mem_append_left _ member)
  have past' : List.Forall₂ p.1.context.Yields before done :=
    advance.acts.yieldsAll apartBefore past
  have future' (n : Node) (member : n ∈ rest) : p.1.context.Untouched n :=
    advance.acts.untouched (apart n (List.mem_append_right _ member)) (future n member)
  have tallied' (n : Node) (member : n ∈ before ++ [child]) : p.1.context.Tallied n := by
    rcases List.mem_append.1 member with member | member
    · exact advance.acts.tallied (apartBefore n member) (tallied n member)
    · cases List.mem_singleton.1 member
      exact valued.tallied
  have all (n : Node) (member : n ∈ before ++ child :: rest) : p.1.context.Tallied n := by
    rw [List.append_cons, List.mem_append] at member
    exact member.elim (tallied' n) fun member => (future' n member).tallied
  obtain ⟨s', progress⟩ := p
  cases progress with
  | waiting current => exact ⟨all, before, child, rfl, past', valued.agrees⟩
  | ended outcome =>
    cases outcome with
    | error fault => exact ⟨all, trivial⟩
    | ok value =>
      rw [List.append_cons]
      exact next value s' advance.heeds future' tallied'
        (List.rel_append past' (.cons valued.agrees .nil))

/-- Steps that follow others collect their values behind those of the others. -/
theorem collected_startAll {nodes : List Node}
    (each : ∀ node ∈ nodes, ∀ s : RunState, s.context.Untouched node → node.ids.Nodup →
      (start engine s node).1.context.Valued node (start engine s node).2)
    (before : List Node) {done : List Json} {s : RunState} (live : s.context.cancelled = false)
    (untouched : ∀ node ∈ nodes, s.context.Untouched node)
    (tallied : ∀ node ∈ before, s.context.Tallied node)
    (distinct : (Node.idsAll (before ++ nodes)).Nodup)
    (past : List.Forall₂ s.context.Yields before done) :
    (startAll engine done s nodes).1.context.Collected (before ++ nodes)
      (startAll engine done s nodes).2 := by
  induction nodes generalizing before done s with
  | nil =>
    rw [startAll, List.append_nil]
    exact ⟨tallied, past⟩
  | cons node rest ih =>
    rw [List.forall_mem_cons] at each untouched
    have own : node.ids.Nodup := Node.nodup_ids_of_mem distinct (by simp)
    rw [startAll_cons]
    refine collected_andThen tallied past untouched.2 distinct (advances_start engine node s)
      (each.1 s untouched.1 own) fun value s' live untouched tallied past => ?_
    exact ih each.2 (before ++ [node]) live untouched tallied (List.append_cons .. ▸ distinct) past

/-! ## Branches -/

/-- A condition is worth what its branch is worth. -/
theorem composed_asBranch {text : String} (kind : node.kind = .condition text) {child : Node}
    {before after : List Node} (children : node.children = before ++ child :: after)
    {p : RunState × Progress} (others : ∀ n ∈ before ++ after, p.1.context.Untouched n)
    (h : p.1.context.Valued child p.2) :
    (asBranch node p).1.context.Composed node (asBranch node p).2 := by
  obtain ⟨s, progress⟩ := p
  have tallied (n : Node) (member : n ∈ node.children) : s.context.Tallied n := by
    rw [children, List.mem_append, List.mem_cons] at member
    rcases member with member | rfl | member
    · exact (others n (List.mem_append_left _ member)).tallied
    · exact h.tallied
    · exact (others n (List.mem_append_right _ member)).tallied
  cases progress with
  | waiting current =>
    refine ⟨tallied, .branch ?_ h.agrees⟩
    rw [children]
    exact List.mem_append_right _ List.mem_cons_self
  | ended outcome =>
    refine ⟨tallied, ?_⟩
    cases outcome with
    | error fault => trivial
    | ok value =>
      simp only [asBranch, Context.Sum, Context.Sums, kind]
      exact .inr ⟨before, child, after, children,
        fun n member => (others n member).state n.mem_ids_self, h.agrees⟩

/-- So is a condition whose branch ends as it starts; without a branch it is worth null. -/
theorem composed_startBranch {text : String} (kind : node.kind = .condition text) (side : Branch)
    (each : ∀ child ∈ node.children, ∀ s : RunState, s.context.Untouched child → child.ids.Nodup →
      (start engine s child).1.context.Valued child (start engine s child).2)
    (untouched : ∀ child ∈ node.children, s.context.Untouched child)
    (distinct : (Node.idsAll node.children).Nodup) :
    (asBranch node (startBranch engine side s node.children)).1.context.Composed node
      (asBranch node (startBranch engine side s node.children)).2 := by
  rcases startBranch_eq engine side s node.children with
    idle | ⟨before, child, after, children, started⟩
  · rw [idle]
    refine ⟨fun child member => (untouched child member).tallied, ?_⟩
    simp only [asBranch, Context.Sum, Context.Sums, kind]
    exact .inl ⟨trivial, fun child member => (untouched child member).state child.mem_ids_self⟩
  · rw [started]
    have member : child ∈ node.children := by
      rw [children]
      exact List.mem_append_right _ List.mem_cons_self
    have valued :=
      each child member s (untouched child member) (Node.nodup_ids_of_mem distinct member)
    have acts := (advances_start engine child s).acts
    refine composed_asBranch kind children (fun n hn => ?_) valued
    rw [children] at distinct untouched
    have inside : n ∈ before ++ child :: after := by
      rcases List.mem_append.1 hn with hn | hn <;> simp [hn]
    exact acts.untouched (fun _ => Node.id_notMem_of_split distinct hn) (untouched n inside)

/-! ## Loops -/

/-- A loop has the values of its rounds, however many they are. -/
theorem composed_rounds {spec : LoopSpec} (kind : node.kind = .loop spec)
    {body : RunState → RunState × Course}
    (round : ∀ s : RunState, s.context.cancelled = false →
      (∀ child ∈ node.children, s.context.Untouched child) →
      (body s).1.context.Collected node.children (body s).2)
    (heeds : ∀ s : RunState, s.context.cancelled = false →
      Heeds (body s).1.context.cancelled (body s).2.outcome?) (remaining : Nat) :
    ∀ (first : Bool) (finished : List Json) (s : RunState), s.context.cancelled = false →
      (∀ child ∈ node.children, s.context.Tallied child) →
      (first = true → ∀ child ∈ node.children, s.context.Untouched child) →
      (rounds node spec body remaining first finished s).1.context.Composed node
        (rounds node spec body remaining first finished s).2 := by
  have ended {s : RunState} {outcome : Except Fault Json}
      (tallied : ∀ child ∈ node.children, s.context.Tallied child) :
      s.context.Composed node (.ended outcome) := by
    refine ⟨tallied, ?_⟩
    cases outcome with
    | ok value => exact .of_loop kind value
    | error fault => trivial
  induction remaining with
  | zero => exact fun first finished s _ tallied _ => ended tallied
  | succ remaining ih =>
    intro first finished s live tallied untouched
    rw [rounds, if_neg (ne_true_of_eq_false live)]
    split
    · exact ended tallied
    · -- The body starts in the same state, or in one in which it is rearmed.
      have ready : ∃ s', (if first then s else s.rearm node.children) = s' ∧
          s'.context.cancelled = false ∧ ∀ child ∈ node.children, s'.context.Untouched child := by
        cases first with
        | true => exact ⟨s, rfl, live, untouched rfl⟩
        | false =>
          exact ⟨_, rfl, (s.cancelled_rearm _).trans live, fun _ => s.untouched_rearm⟩
      obtain ⟨s', heq, live', untouched'⟩ := ready
      rw [heq]
      have collected := round s' live' untouched'
      have heeds := heeds s' live'
      generalize body s' = p at collected heeds
      obtain ⟨s'', course⟩ := p
      cases course with
      | waiting done current rest =>
        obtain ⟨before, child, children, past, present⟩ := collected.lists
        exact ⟨collected.tallied, .loop children past present⟩
      | ended outcome =>
        have after := heeds_afterRound spec finished heeds
        dsimp only
        generalize afterRound spec finished outcome = next at after
        cases next with
        | inl outcome => exact ended collected.tallied
        | inr finished =>
          exact ih false finished s'' after collected.tallied fun first =>
            absurd first Bool.false_ne_true

/-! ## Parallel blocks -/

/-- A child that does not stop its block fills its slot, and only a block that does not wait for
all is stopped with a value. -/
theorem fills_judge (spec : ParallelSpec) (firstError : Option Fault) {child : Node}
    {context : Context} {outcome : Except Fault Json} (h : context.Agrees child (.ended outcome)) :
    match judge spec firstError child outcome with
    | .goOn slot _ => context.Fills child slot
    | .stop (.ok _) => spec.waitForAll = false
    | .stop (.error _) => True := by
  cases outcome with
  | ok value =>
    simp only [judge]
    cases waits : spec.waitForAll with
    | true => exact .inl h
    | false => rfl
  | error fault =>
    simp only [judge]
    by_cases stops : (fault.isCancelled || (spec.failFast && spec.waitForAll)) = true
    · rw [if_pos stops]
      trivial
    · rw [if_neg stops]
      have plain : fault.isCancelled = false := by
        revert stops
        cases fault.isCancelled <;> simp
      exact .inr ⟨fault, h plain, rfl⟩

/-- A block that is stopped keeps the values below it. -/
theorem composed_stop {spec : ParallelSpec} (kind : node.kind = .parallel spec)
    {before after : List (Lane Activity)} {queue : List Node} {outcome : Except Fault Json}
    (tallied : ∀ n ∈ node.children, s.context.Tallied n)
    (stops : match outcome with
      | .ok _ => spec.waitForAll = false
      | .error _ => True) :
    (stop before after queue outcome s).1.context.Composed node
      (stop before after queue outcome s).2 := by
  refine ⟨fun n member => (tallied n member).keep fun id _ => ?_, ?_⟩
  · have phase := s.phase_sweep
      (before.filterMap Lane.unfinished? ++ after.filterMap Lane.unfinished? ++ queue) id
    split at phase
    · exact .of_halted phase
    · exact .of_phase phase
  · cases outcome with
    | error fault => trivial
    | ok value =>
      simp only [stop, Except.map, Context.Sum, Context.Sums, kind]
      intro waits
      rw [stops] at waits
      cases waits

/-- A block that waits holds what its lanes tell. -/
theorem composed_parallel {spec : ParallelSpec} {context : Context} {lanes : List (Lane Activity)}
    {queue : List Node} {door : Option Nat} {firstError : Option Fault}
    (children : node.children = lanes.map Lane.child ++ queue)
    (lined : ∀ lane ∈ lanes, context.Lined lane) (waiting : ∀ n ∈ queue, context.Untouched n) :
    context.Composed node (.waiting (.parallel node spec lanes queue door firstError)) := by
  refine ⟨fun n member => ?_, .parallel children (fun child activity member => ?_)
    fun child slot member => ?_⟩
  · rw [children, List.mem_append, List.mem_map] at member
    rcases member with ⟨lane, member, rfl⟩ | member
    · exact (lined lane member).tallied
    · exact (waiting n member).tallied
  · exact (lined _ member).slots
  · exact (lined _ member).slots

/-- A block that waits has the values of the children that have ended. -/
theorem composed_carryOn {spec : ParallelSpec} (kind : node.kind = .parallel spec) {limit : Nat}
    {queue : List Node} (lanes : List (Lane Activity)) (firstError : Option Fault) (s : RunState)
    (lined : ∀ lane ∈ lanes, s.context.Lined lane) (waiting : ∀ n ∈ queue, s.context.Untouched n)
    (children : node.children = lanes.map Lane.child ++ queue) :
    (carryOn node spec limit lanes firstError s queue).1.context.Composed node
      (carryOn node spec limit lanes firstError s queue).2 := by
  cases queue with
  | nil =>
    rw [carryOn]
    split
    · exact composed_parallel children lined waiting
    · next idle =>
      rw [List.append_nil] at children
      have filled := Context.fills_lanes lined idle
      rw [← children] at filled
      refine ⟨fun n member => ?_, ?_⟩
      · rw [children] at member
        obtain ⟨lane, inLane, rfl⟩ := List.mem_map.1 member
        exact (lined lane inLane).tallied
      · have sums : s.context.Sums node (.arr (lanes.map Lane.slot)) := by
          simp only [Context.Sums, kind]
          exact fun _ => ⟨_, rfl, filled⟩
        unfold conclude
        split
        · split
          · trivial
          · exact sums
        · exact sums
  | cons child rest =>
    rw [carryOn]
    split
    · exact composed_parallel children lined waiting
    · exact composed_parallel children lined waiting

/-- A block that ends has the value of each child, or null for it. -/
theorem composed_afterChild {spec : ParallelSpec} (kind : node.kind = .parallel spec) {limit : Nat}
    {before after : List (Lane Activity)} {child : Node} {queue : List Node}
    (firstError : Option Fault) {outcome : Except Fault Json}
    (children : node.children = before.map Lane.child ++ child :: after.map Lane.child ++ queue)
    (lined : ∀ lane ∈ before ++ after, s.context.Lined lane)
    (waiting : ∀ n ∈ queue, s.context.Untouched n)
    (valued : s.context.Valued child (.ended outcome)) :
    (afterChild node spec limit queue firstError s before child outcome after).1.context.Composed
      node (afterChild node spec limit queue firstError s before child outcome after).2 := by
  have judged := fills_judge spec firstError valued.agrees
  unfold afterChild
  generalize judge spec firstError child outcome = verdict at judged
  cases verdict with
  | goOn slot firstError =>
    refine composed_carryOn kind _ firstError s (fun lane member => ?_) waiting ?_
    · rw [List.append_assoc, List.singleton_append, List.mem_append, List.mem_cons] at member
      rcases member with member | rfl | member
      · exact lined lane (List.mem_append_left _ member)
      · exact ⟨valued.tallied, judged⟩
      · exact lined lane (List.mem_append_right _ member)
    · rw [children, List.append_assoc before, List.map_append, List.map_append, List.map_singleton]
      rfl
  | stop outcome =>
    refine composed_stop kind (fun n member => ?_) ?_
    · rw [children, List.mem_append, List.mem_append, List.mem_cons, List.mem_map,
        List.mem_map] at member
      rcases member with (⟨lane, member, rfl⟩ | rfl | ⟨lane, member, rfl⟩) | member
      · exact (lined lane (List.mem_append_left _ member)).tallied
      · exact valued.tallied
      · exact (lined lane (List.mem_append_right _ member)).tallied
      · exact (waiting n member).tallied
    · cases outcome <;> exact judged

/-! ## Nodes -/

/-- The work of a node makes its value agree with those of its children. -/
theorem composed_work
    (each : ∀ child ∈ node.children, ∀ s : RunState, s.context.Untouched child → child.ids.Nodup →
      (start engine s child).1.context.Valued child (start engine s child).2)
    (s : RunState) (live : s.context.cancelled = false)
    (untouched : ∀ child ∈ node.children, s.context.Untouched child)
    (distinct : (Node.idsAll node.children).Nodup) :
    (work engine node s).1.context.Composed node (work engine node s).2 := by
  have steps (s : RunState) (live : s.context.cancelled = false)
      (untouched : ∀ child ∈ node.children, s.context.Untouched child) :
      (startAll engine [] s node.children).1.context.Collected node.children
        (startAll engine [] s node.children).2 :=
    collected_startAll each [] live untouched nofun distinct .nil
  have below (acts : Acts engine .heeding [] s (work engine node s).1) (child : Node)
      (member : child ∈ node.children) : (work engine node s).1.context.Tallied child :=
    acts.tallied (fun _ _ => List.not_mem_nil) (untouched child member).tallied
  revert below
  unfold work
  split
  · next spec kind =>
    intro below
    exact (alone_attempt kind _ _ s).composed (.inl ⟨spec, kind⟩)
      (below (advances_attempt node _ _ _ s live).acts)
  · next kind =>
    intro _
    exact composed_asSequence kind (steps s live untouched)
  · next spec kind =>
    intro _
    exact composed_carryOn kind [] none s nofun untouched rfl
  · next text kind =>
    intro _
    exact composed_startBranch kind _ each untouched distinct
  · next spec kind =>
    intro _
    refine composed_rounds kind steps (fun s live => ?_) _ true [] s live
      (fun child member => (untouched child member).tallied) fun _ => untouched
    exact (proceeds_startAll (fun child member s => (advances_start engine child s).mono
      (Node.idsAll_subset member)) [] s live).heeds
  · next spec kind =>
    intro below
    exact (alone_poll kind _ s).composed (.inr ⟨spec, kind⟩)
      (below (advances_poll node _ _ s).acts)

/-- The value of a node is kept as its end is recorded. -/
theorem valued_close {p : RunState × Progress} (h : p.1.context.Composed node p.2)
    (top : p.1.context.state node.id = .running ∨
      p.1.context.state node.id = .cancelled ∧ p.1.context.cancelled = true)
    (heeds : Heeds p.1.context.cancelled p.2.outcome?) (distinct : node.ids.Nodup) :
    (close node p).1.context.Valued node (close node p).2 := by
  obtain ⟨s, progress⟩ := p
  have live (calm : s.context.cancelled = false) : s.context.state node.id = .running := by
    refine top.resolve_right fun dead => ?_
    rw [calm] at dead
    cases dead.2
  cases progress with
  | waiting activity =>
    have running := live heeds
    refine ⟨Context.tallied_iff.2 ⟨Context.tallies_of_ne fun completed => ?_, h.tallied⟩, h.sum⟩
    cases running.symm.trans completed
  | ended outcome =>
    have phase (id : String) := s.phase_record node.id id outcome
    have outside := Node.id_notMem_children distinct
    have others (id : String) (inside : id ∈ Node.idsAll node.children) :
        (s.record node.id outcome).context.phase id = s.context.phase id := by
      refine (phase id).trans (if_neg ?_)
      rintro rfl
      exact outside inside
    have tallied (child : Node) (member : child ∈ node.children) :
        (s.record node.id outcome).context.Tallied child :=
      (h.tallied child member).keep fun id hid =>
        .of_phase (others id (Node.idsAll_subset member hid))
    have own : (s.record node.id outcome).context.phase node.id = s.closed node.id outcome :=
      (phase node.id).trans (if_pos rfl)
    have ownState :
        (s.record node.id outcome).context.state node.id = (s.closed node.id outcome).state :=
      congrArg Phase.state own
    cases outcome with
    | ok value =>
      have running := live heeds
      have yields : (s.record node.id (.ok value)).context.Yields node value :=
        ⟨ownState.trans (s.state_closed running (.ok value)),
          (congrArg Phase.result? own).trans (Phase.result?_finish running ..)⟩
      refine ⟨Context.tallied_iff.2 ⟨fun other shown => ?_, tallied⟩, yields⟩
      cases Option.some.inj (shown.2.symm.trans yields.2)
      refine Context.Sums.keep h.sum fun child member _ => others child.id ?_
      exact Node.idsAll_subset member child.mem_ids_self
    | error fault =>
      refine ⟨Context.tallied_iff.2 ⟨Context.tallies_of_ne ?_, tallied⟩, fun plain => ?_⟩
      · rw [close, ownState]
        rcases top with running | ⟨cancelled, -⟩
        · rw [s.state_closed running]
          dsimp only
          split <;> decide
        · rw [s.closed_of_ne (by rw [cancelled]; decide), ← Context.state, cancelled]
          decide
      · have running := live (heeds.symm.trans plain)
        refine ⟨ownState.trans ?_, (congrArg Phase.result? own).trans ?_⟩
        · rw [s.state_closed running]
          simp only [plain]
          rfl
        · simp only [RunState.closed, plain]
          exact Phase.result?_finish running ..

/-- A node of an untouched tree comes to a value, or waits with values, of its children. -/
theorem valued_start (engine : Engine) (node : Node) (s : RunState)
    (untouched : s.context.Untouched node) (distinct : node.ids.Nodup) :
    (start engine s node).1.context.Valued node (start engine s node).2 := by
  induction node using Node.induction generalizing s with
  | step node ih =>
    rw [start_eq]
    by_cases dead : s.context.cancelled = true
    · rw [if_pos dead]
      have listed : (s.touch node.id).context.Untouched node := fun id hid =>
        (s.phase_touch node.id id).trans (untouched id hid)
      refine ⟨listed.tallied, fun plain => ?_⟩
      cases plain
    · rw [if_neg dead]
      have live : (s.startNode node).context.cancelled = false := eq_false_of_ne_true dead
      obtain ⟨own, below⟩ := s.startNode_of_untouched untouched distinct
      have advance := advances_work node (fun child _ => advances_start engine child)
        (s.startNode node) live
      have composed := composed_work ih (s.startNode node) live below (Node.nodup_children distinct)
      have outside := Node.id_notMem_children distinct
      exact valued_close composed ((advance.acts.leftAlone outside).running_or_cancelled own)
        advance.heeds distinct

end Run

end Stepwise

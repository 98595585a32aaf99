import Stepwise.Proofs.Run.Collect
import Stepwise.Proofs.Run.Forecast
import Stepwise.Proofs.Run.Lasting

/-!
# Runs keep to the forecast

As long as a run of a patient tree is not cancelled, what has ended in it has come to its verdict
and has been left as foretold, what waits is on its way there, and what has not begun is as it was
at first. `Underway` says this of an activity, in terms of the standings at first and now, and
`comes_start` shows that a node that starts comes to such a progress and leaves all other nodes
alone. Which children of a block run at a time plays no part in it.
-/

namespace Stepwise

namespace Forecast

open Run

/-- The standings of nodes by their ids. -/
abbrev Standings := String → Standing

section

variable (answer : Call → Except String Json) (origin now : Standings)

/-- Trees that nobody has touched. -/
def Idle (nodes : List Node) : Prop := ∀ id ∈ Node.idsAll nodes, now id = origin id

/-- A tree is left as foretold. -/
def Left (node : Node) : Prop := ∀ id ∈ node.ids, now id = node.leaves answer id (origin id)

/-- Trees one after another are left as foretold. -/
def LeftInTurn (nodes : List Node) : Prop :=
  ∀ id ∈ Node.idsAll nodes, now id = Node.leavesInTurn answer nodes id (origin id)

/-- A task with some attempts left, all of whose attempts so far have failed. -/
structure Trying (node : Node) (spec : TaskSpec) (left : Nat) : Prop where
  kind : node.kind = .task spec
  le : left ≤ attempts spec
  failed : left < attempts spec → ∃ reason, answer spec.call = .error reason
  own : now node.id = (Standing.again^[attempts spec - left]) (origin node.id).begin
  below : ∀ id ∈ Node.idsAll node.children, node.id ≠ id → now id = origin id

/-- An activity of a node is on its way to what is foretold. -/
inductive Underway : Node → Activity → Prop
  | calling {node : Node} {spec : TaskSpec} {left : Nat} {reply : Reply} {ticket due : Nat}
      (trying : Trying answer origin now node spec (left + 1))
      (given : reply.outcome = answer spec.call) :
      Underway node (.calling node spec spec.call left reply ticket due none)
  | pausing {node : Node} {spec : TaskSpec} {left ticket due : Nat}
      (trying : Trying answer origin now node spec (left + 1)) :
      Underway node (.pausing node spec spec.call (left + 1) ticket due)
  | sequence {node child : Node} {done : List Json} {current : Activity} {before rest : List Node}
      (kind : node.kind = .sequence) (own : now node.id = (origin node.id).begin)
      (children : node.children = before ++ child :: rest)
      (past : Node.verdicts answer before = .ok done) (behind : LeftInTurn answer origin now before)
      (present : Underway child current) (future : Idle origin now rest) :
      Underway node (.sequence node done current rest)
  | parallel {node : Node} {spec : ParallelSpec} {lanes : List (Lane Activity)} {queue : List Node}
      {door : Option Nat} {firstError : Option Fault} (kind : node.kind = .parallel spec)
      (own : now node.id = (origin node.id).begin)
      (children : node.children = lanes.map Lane.child ++ queue)
      (running : ∀ child activity, .running child activity ∈ lanes → Underway child activity)
      (ended : ∀ child slot, .ended child slot ∈ lanes →
        slot = Standing.kept child.id (child.verdict answer) ∧ Left answer origin now child)
      (waiting : Idle origin now queue) (entry : door.isSome = true → queue ≠ [])
      (busy : door.isSome = true ∨ ∃ child activity, .running child activity ∈ lanes) :
      Underway node (.parallel node spec lanes queue door firstError)

/-- What a node has come to is foretold. -/
def Told (node : Node) : Progress → Prop
  | .ended outcome => outcome = node.verdict answer ∧ Left answer origin now node
  | .waiting activity => Underway answer origin now node activity

/-- Likewise before the end of the node is recorded. -/
def Worked (node : Node) : Progress → Prop
  | .ended outcome => outcome = node.verdict answer ∧
      now node.id = (Standing.again^[node.failures answer]) (origin node.id).begin ∧
      ∀ id ∈ Node.idsAll node.children, node.id ≠ id → now id = node.leaves answer id (origin id)
  | .waiting activity => Underway answer origin now node activity

/-- What nodes one after another have come to is foretold. -/
def Passed (nodes : List Node) : Course → Prop
  | .ended outcome => outcome = Node.verdicts answer nodes ∧ LeftInTurn answer origin now nodes
  | .waiting done current rest => ∃ before child, nodes = before ++ child :: rest ∧
      Node.verdicts answer before = .ok done ∧ LeftInTurn answer origin now before ∧
      Underway answer origin now child current ∧ Idle origin now rest

/-- What a lane of a block holds is foretold. -/
def InLane : Lane Activity → Prop
  | .running child activity => Underway answer origin now child activity
  | .ended child slot =>
    slot = Standing.kept child.id (child.verdict answer) ∧ Left answer origin now child

end

variable {answer : Call → Except String Json} {origin now later : Standings} {node : Node}
  {nodes : List Node}

/-! ## Standings that stay -/

/-- What is idle stays so if nothing is done to it. -/
theorem Idle.keep (h : Idle origin now nodes) (same : ∀ id ∈ Node.idsAll nodes, later id = now id) :
    Idle origin later nodes := fun id member => (same id member).trans (h id member)

theorem Idle.head (h : Idle origin now (node :: nodes)) : Idle origin now [node] := by
  intro id member
  apply h id
  rw [Node.idsAll_cons, Node.idsAll_nil, List.append_nil] at member
  exact List.mem_append_left _ member

theorem Idle.tail (h : Idle origin now (node :: nodes)) : Idle origin now nodes :=
  fun id member => h id (List.mem_append_right _ member)

theorem Left.keep (h : Left answer origin now node) (same : ∀ id ∈ node.ids, later id = now id) :
    Left answer origin later node := fun id member => (same id member).trans (h id member)

theorem LeftInTurn.keep (h : LeftInTurn answer origin now nodes)
    (same : ∀ id ∈ Node.idsAll nodes, later id = now id) : LeftInTurn answer origin later nodes :=
  fun id member => (same id member).trans (h id member)

theorem Trying.keep {spec : TaskSpec} {left : Nat} (h : Trying answer origin now node spec left)
    (same : ∀ id ∈ node.ids, later id = now id) : Trying answer origin later node spec left := by
  refine ⟨h.kind, h.le, h.failed, (same _ node.mem_ids_self).trans h.own, ?_⟩
  intro id member other
  exact (same id (Node.idsAll_children_subset node member)).trans (h.below id member other)

/-- An activity stays on its way while the nodes of its tree keep their standings. -/
theorem Underway.keep {activity : Activity} (h : Underway answer origin now node activity)
    (same : ∀ id ∈ node.ids, later id = now id) : Underway answer origin later node activity := by
  induction h with
  | calling trying given => exact .calling (trying.keep same) given
  | pausing trying => exact .pausing (trying.keep same)
  | @sequence node child done current before rest kind own children past behind _ future ih =>
    have inside : ∀ n ∈ before ++ child :: rest, n.ids ⊆ node.ids := by
      intro n member
      exact Node.ids_child_subset (children ▸ member)
    have insideAll : ∀ nodes, nodes ⊆ before ++ child :: rest → Node.idsAll nodes ⊆ node.ids := by
      intro nodes subset id member
      obtain ⟨n, hn, hid⟩ := Node.mem_idsAll.1 member
      exact inside n (subset hn) hid
    apply Underway.sequence kind ((same _ node.mem_ids_self).trans own) children past
    · exact behind.keep fun id member => same id (insideAll _ (List.subset_append_left _ _) member)
    · exact ih fun id member => same id (inside child (by simp) member)
    · exact future.keep fun id member => same id (insideAll rest (by intro; simp +contextual) member)
  | @parallel node spec lanes queue door firstError kind own children _ ended waiting entry busy ih =>
    have inLanes : ∀ lane ∈ lanes, lane.child.ids ⊆ node.ids := by
      intro lane member
      exact Node.ids_child_subset (Context.Fits.lane_child_mem children member)
    apply Underway.parallel kind ((same _ node.mem_ids_self).trans own) children
    · intro child activity member
      exact ih child activity member fun id hid => same id (inLanes _ member hid)
    · intro child slot member
      obtain ⟨value, left⟩ := ended child slot member
      exact ⟨value, left.keep fun id hid => same id (inLanes _ member hid)⟩
    · apply waiting.keep
      intro id member
      obtain ⟨child, hchild, hid⟩ := Node.mem_idsAll.1 member
      refine same id (Node.ids_child_subset ?_ hid)
      rw [children]
      exact List.mem_append_right _ hchild
    · exact entry
    · exact busy

theorem InLane.keep {lane : Lane Activity} (h : InLane answer origin now lane)
    (same : ∀ id ∈ lane.child.ids, later id = now id) : InLane answer origin later lane := by
  cases lane with
  | running child activity => exact Underway.keep h same
  | ended child slot => exact ⟨h.1, h.2.keep same⟩

/-! ## The end of a node -/

/-- From one state something comes to what is told of it, and nodes of other ids are left alone. -/
structure Onward {α : Type} (tells : Standings → α → Prop) (ids : List String) (s : RunState)
    (p : RunState × α) : Prop where
  told : tells p.1.context.standing p.2
  within : Within ids s p.1

/-- From one state a node comes to what is foretold, and nodes outside its tree are left alone. -/
abbrev Comes (answer : Call → Except String Json) (origin : Standings) (node : Node) :
    RunState → RunState × Progress → Prop :=
  Onward (fun now => Told answer origin now node) node.ids

/-- Likewise before the end of the node is recorded. -/
abbrev Works (answer : Call → Except String Json) (origin : Standings) (node : Node) :
    RunState → RunState × Progress → Prop :=
  Onward (fun now => Worked answer origin now node) node.ids

/-- Wherever a node that nobody has touched starts, it comes to what is foretold, unless the run is
cancelled. -/
def Starts (answer : Call → Except String Json) (origin : Standings) (engine : Engine)
    (node : Node) : Prop :=
  ∀ s : RunState, Idle origin s.context.standing [node] →
    (start engine s node).1.context.cancelled = false →
    Comes answer origin node s (start engine s node)

variable {engine : Engine} {s s' : RunState}

/-- What went on before within the same nodes may be added in front. -/
theorem Onward.after {α : Type} {tells : Standings → α → Prop} {ids : List String}
    {p : RunState × α} (h : Onward tells ids s' p) (within : Within ids s s') :
    Onward tells ids s p := ⟨h.told, within.trans h.within⟩

/-- A node whose work is done as foretold ends as foretold. -/
theorem comes_close {p : RunState × Progress} (h : Works answer origin node s p) :
    Comes answer origin node s (close node p) := by
  obtain ⟨s', progress⟩ := p
  cases progress with
  | waiting activity => exact ⟨h.told, h.within⟩
  | ended outcome =>
    obtain ⟨rfl, own, below⟩ := h.told
    have plain : Plain (node.verdict answer) := node.plain_verdict
    refine ⟨⟨rfl, ?_⟩, h.within.trans (.record node.mem_ids_self plain)⟩
    intro id member
    show (s'.record node.id (node.verdict answer)).context.standing id = _
    rw [s'.standing_record node.id id plain]
    by_cases same : node.id = id
    · subst same
      rw [if_pos rfl, Node.leaves_self, Node.closed]
      exact congrArg (Standing.close · node.id (node.verdict answer)) own
    · rw [if_neg same]
      rw [Node.ids_eq, List.mem_cons] at member
      exact below id (member.resolve_left (Ne.symm same)) same

/-! ## Tasks -/

/-- What becomes of a task that has made its last attempt. -/
theorem worked_of_task {spec : TaskSpec} {left : Nat}
    (trying : Trying answer origin now node spec left)
    (failures : attempts spec - left = node.failures answer) :
    Worked answer origin now node (.ended (node.taskVerdict answer spec)) := by
  refine ⟨(Node.verdict_of_task trying.kind).symm, failures ▸ trying.own, ?_⟩
  intro id member other
  rw [Node.leaves_of_task trying.kind other]
  exact trying.below id member other

/-- A failed attempt with others to follow is counted. -/
theorem Trying.retry {spec : TaskSpec} {left : Nat} {reason : String}
    (h : Trying answer origin s.context.standing node spec (left + 1))
    (failed : answer spec.call = .error reason) (attempt : Nat) (fault : Fault) :
    Trying answer origin (s.retry node.id attempt fault).context.standing node spec left := by
  refine ⟨h.kind, Nat.le_of_succ_le h.le, fun _ => ⟨reason, failed⟩, ?_, ?_⟩
  · have count : attempts spec - left = attempts spec - (left + 1) + 1 := by
      have := h.le
      omega
    rw [s.standing_retry, if_pos rfl, h.own, count, Function.iterate_succ_apply']
  · intro id member other
    rw [s.standing_retry, if_neg other]
    exact h.below id member other

/-- After an attempt a task goes on as foretold, whether it is called again or not. -/
theorem works_settle {spec : TaskSpec} {left : Nat} {again : RunState → RunState × Progress}
    (next : ∀ s : RunState, Trying answer origin s.context.standing node spec left → 0 < left →
      (again s).1.context.cancelled = false → Works answer origin node s (again s))
    (trying : Trying answer origin s.context.standing node spec (left + 1))
    {outcome : Except Fault Json}
    (given : outcome = (answer spec.call).mapError (Fault.taskFailed spec.task))
    (live : (settle engine node spec spec.call left again s outcome).1.context.cancelled = false) :
    Works answer origin node s (settle engine node spec spec.call left again s outcome) := by
  have alive : s.context.cancelled = false := alive_of (fun dead => dead_settle dead outcome) live
  unfold settle at live ⊢
  rw [if_neg (ne_true_of_eq_false alive)] at live ⊢
  cases hanswer : answer spec.call with
  | ok value =>
    have verdict : node.taskVerdict answer spec = .ok value := by
      simp only [Node.taskVerdict, hanswer]
    rw [hanswer] at given
    subst given
    -- No attempt before this one has failed, so it is the first.
    have first : left + 1 = attempts spec := by
      by_contra other
      obtain ⟨reason, failed⟩ := trying.failed (Nat.lt_of_le_of_ne trying.le other)
      rw [hanswer] at failed
      cases failed
    have worked := worked_of_task trying (by simp [Node.failures, trying.kind, hanswer, first])
    rw [verdict] at worked
    exact ⟨worked, .refl s⟩
  | error reason =>
    have verdict : node.taskVerdict answer spec =
        .error (exhausted node spec (.taskFailed spec.task reason)) := by
      simp only [Node.taskVerdict, hanswer]
    rw [hanswer] at given
    subst given
    by_cases last : left = 0
    · subst last
      have worked := worked_of_task trying (by simp [Node.failures, trying.kind, hanswer])
      rw [verdict] at worked
      exact ⟨worked, .refl s⟩
    · have retried := trying.retry hanswer (attempts spec - left) (.taskFailed spec.task reason)
      have within : Within node.ids s
          (s.retry node.id (attempts spec - left) (.taskFailed spec.task reason)) :=
        .retry node.mem_ids_self
      simp only [Except.mapError, last, if_false] at live ⊢
      split at live
      · next atOnce =>
        rw [if_pos atOnce]
        exact (next _ retried (Nat.pos_of_ne_zero last) live).after within
      · next pauses =>
        rw [if_neg pauses]
        cases left with
        | zero => exact absurd rfl last
        | succ left =>
          exact ⟨.pausing retried, within.trans (.of_eq rfl)⟩

/-- A call may change variables first, which makes no difference. -/
theorem works_reply {spec : TaskSpec} {left : Nat} {again : RunState → RunState × Progress}
    (next : ∀ s : RunState, Trying answer origin s.context.standing node spec left → 0 < left →
      (again s).1.context.cancelled = false → Works answer origin node s (again s))
    (trying : Trying answer origin s.context.standing node spec (left + 1)) {reply : Reply}
    (given : reply.outcome = answer spec.call) (effects : List Effect)
    (live : (settle engine node spec spec.call left again (s.applyAll effects)
      (outcomeOf spec reply)).1.context.cancelled = false) :
    Works answer origin node s
      (settle engine node spec spec.call left again (s.applyAll effects)
        (outcomeOf spec reply)) := by
  have alive : (s.applyAll effects).context.cancelled = false :=
    alive_of (fun dead => dead_settle dead _) live
  have quiet : Within [] s (s.applyAll effects) := .applyAll alive
  have same (id : String) :
      (s.applyAll effects).context.standing id = s.context.standing id :=
    quiet.apart id List.not_mem_nil
  have outcome : outcomeOf spec reply =
      (answer spec.call).mapError (Fault.taskFailed spec.task) := by
    rw [outcomeOf, given]
  exact (works_settle next (trying.keep fun id _ => same id) outcome live).after (.applyAll alive)

/-- However often a task is called, it goes on as foretold. -/
theorem works_attempt (answers : engine.executor.Answers answer) {spec : TaskSpec}
    (patience : spec.timeout = none) (left : Nat) :
    ∀ s : RunState, Trying answer origin s.context.standing node spec left → 0 < left →
      (attempt engine node spec spec.call left s).1.context.cancelled = false →
      Works answer origin node s (attempt engine node spec spec.call left s) := by
  induction left with
  | zero => exact fun _ _ positive => absurd positive (Nat.lt_irrefl 0)
  | succ left ih =>
    intro s trying _ live
    have given : (s.place engine node.id spec.call).1.outcome = answer spec.call := answers _ _
    have placed : Within node.ids s (s.place engine node.id spec.call).2 :=
      .of_eq rfl
    simp only [attempt] at live ⊢
    split at live
    · next atOnce =>
      rw [if_pos atOnce]
      exact (works_reply ih (s := (s.place engine node.id spec.call).2) trying given _ live).after
        placed
    · next later =>
      rw [if_neg later]
      simp only [patience, Option.map_none, Option.any_none]
      exact ⟨.calling trying given, .of_eq rfl⟩

/-! ## Steps in turn -/

/-- From one state nodes one after another come to what is foretold, and nodes outside their trees
are left alone. -/
abbrev Passes (answer : Call → Except String Json) (origin : Standings) (nodes : List Node) :
    RunState → RunState × Course → Prop :=
  Onward (fun now => Passed answer origin now nodes) (Node.idsAll nodes)

/-- A child that has ended joins those that have ended before it. -/
theorem LeftInTurn.snoc {before : List Node} {child : Node} {done : List Json}
    (behind : LeftInTurn answer origin now before) (left : Left answer origin now child)
    (past : Node.verdicts answer before = .ok done)
    (apart : ∀ n ∈ before, n.ids.Disjoint child.ids) :
    LeftInTurn answer origin now (before ++ [child]) := by
  intro id member
  rw [Node.leavesInTurn_append past, Node.leavesInTurn_singleton]
  by_cases inside : id ∈ child.ids
  · rw [Node.leavesInTurn_of_notMem]
    · exact left id inside
    · intro other
      obtain ⟨n, hn, hid⟩ := Node.mem_idsAll.1 other
      exact apart n hn hid inside
  · rw [Node.leaves_of_notMem inside]
    apply behind
    simpa [inside] using member

/-- Steps behind one that fails stay as they are. -/
theorem LeftInTurn.stop {before rest : List Node} {child : Node} {done : List Json} {fault : Fault}
    (behind : LeftInTurn answer origin now before) (left : Left answer origin now child)
    (past : Node.verdicts answer before = .ok done) (failed : child.verdict answer = .error fault)
    (apart : ∀ n ∈ before, n.ids.Disjoint child.ids) (future : Idle origin now rest) :
    LeftInTurn answer origin now (before ++ child :: rest) := by
  have all := behind.snoc left past apart
  intro id member
  rw [Node.leavesInTurn_append past, Node.leavesInTurn_failed failed]
  by_cases inside : id ∈ Node.idsAll (before ++ [child])
  · have same := all id inside
    rw [Node.leavesInTurn_append past, Node.leavesInTurn_singleton] at same
    exact same
  · simp only [Node.idsAll_append, Node.idsAll_cons, Node.idsAll_nil, List.append_nil,
      List.mem_append, not_or] at inside member
    rw [Node.leaves_of_notMem inside.2, Node.leavesInTurn_of_notMem inside.1]
    apply future
    simpa [inside] using member

/-- A step between those done and the rest adds its value to theirs, or stops them all. -/
theorem passes_andThen {before rest : List Node} {child : Node} {done : List Json}
    (distinct : (Node.idsAll (before ++ child :: rest)).Nodup)
    (past : Node.verdicts answer before = .ok done)
    (behind : LeftInTurn answer origin s.context.standing before)
    (future : Idle origin s.context.standing rest) {p : RunState × Progress}
    (first : Comes answer origin child s p)
    (next : ∀ (value : Json) (s' : RunState),
      Node.verdicts answer (before ++ [child]) = .ok (done ++ [value]) →
      LeftInTurn answer origin s'.context.standing (before ++ [child]) →
      Idle origin s'.context.standing rest →
      (startAll engine (done ++ [value]) s' rest).1.context.cancelled = false →
      Passes answer origin ((before ++ [child]) ++ rest) s'
        (startAll engine (done ++ [value]) s' rest))
    (live : (andThen engine done rest p).1.context.cancelled = false) :
    Passes answer origin (before ++ child :: rest) s (andThen engine done rest p) := by
  have apart : ∀ n ∈ before ++ rest, n.ids.Disjoint child.ids :=
    fun n member _ => Node.id_notMem_of_split distinct member
  have apartBefore : ∀ n ∈ before, n.ids.Disjoint child.ids :=
    fun n member => apart n (List.mem_append_left _ member)
  obtain ⟨s', progress⟩ := p
  -- What the other steps have come to is not touched.
  have kept (nodes : List Node) (others : nodes ⊆ before ++ rest) :
      ∀ id ∈ Node.idsAll nodes, s'.context.standing id = s.context.standing id := by
    intro id member
    obtain ⟨n, hn, hid⟩ := Node.mem_idsAll.1 member
    exact first.within.apart id (apart n (others hn) hid)
  have behind' := behind.keep (kept before (List.subset_append_left _ _))
  have future' := future.keep (kept rest (List.subset_append_right _ _))
  have within : Within (Node.idsAll (before ++ child :: rest)) s s' := by
    apply first.within.mono
    exact Node.idsAll_subset (List.mem_append_right _ List.mem_cons_self)
  cases progress with
  | waiting current => exact ⟨⟨before, child, rfl, past, behind', first.told, future'⟩, within⟩
  | ended outcome =>
    obtain ⟨verdict, left⟩ := first.told
    cases outcome with
    | error fault =>
      refine ⟨⟨?_, behind'.stop left past verdict.symm apartBefore future'⟩, within⟩
      rw [Node.verdicts_append past, Node.verdicts, ← verdict]
      rfl
    | ok value =>
      have told : Node.verdicts answer (before ++ [child]) = .ok (done ++ [value]) := by
        rw [Node.verdicts_append past, Node.verdicts, ← verdict]
        rfl
      have rest := next value s' told (behind'.snoc left past apartBefore) future' live
      rw [← List.append_cons] at rest
      exact ⟨rest.told, within.trans rest.within⟩

/-- Steps that follow others go on from what these have come to. -/
theorem passes_startAll {nodes : List Node}
    (each : ∀ node ∈ nodes, Starts answer origin engine node)
    (before : List Node) {done : List Json} {s : RunState}
    (distinct : (Node.idsAll (before ++ nodes)).Nodup)
    (past : Node.verdicts answer before = .ok done)
    (behind : LeftInTurn answer origin s.context.standing before)
    (idle : Idle origin s.context.standing nodes)
    (live : (startAll engine done s nodes).1.context.cancelled = false) :
    Passes answer origin (before ++ nodes) s (startAll engine done s nodes) := by
  induction nodes generalizing before done s with
  | nil =>
    rw [startAll, List.append_nil]
    exact ⟨⟨past.symm, behind⟩, .refl s⟩
  | cons node rest ih =>
    rw [List.forall_mem_cons] at each
    rw [startAll_cons] at live ⊢
    have first : (start engine s node).1.context.cancelled = false := alive_of dead_andThen live
    refine passes_andThen distinct past behind idle.tail (each.1 s idle.head first) ?_ live
    intro value s' past behind idle live
    exact ih each.2 (before ++ [node]) (List.append_cons .. ▸ distinct) past behind idle live

/-- A sequence works as foretold if its steps pass as foretold. -/
theorem works_asSequence (kind : node.kind = .sequence) (distinct : node.ids.Nodup)
    (own : s.context.standing node.id = (origin node.id).begin) {p : RunState × Course}
    (h : Passes answer origin node.children s p) :
    Works answer origin node s (asSequence node p) := by
  have within : Within node.ids s p.1 := h.within.mono (Node.idsAll_children_subset node)
  have own : p.1.context.standing node.id = (origin node.id).begin :=
    (h.within.apart _ (Node.id_notMem_children distinct)).trans own
  obtain ⟨s', course⟩ := p
  cases course with
  | waiting done current rest =>
    obtain ⟨before, child, children, past, behind, present, future⟩ := h.told
    exact ⟨.sequence kind own children past behind present future, within⟩
  | ended outcome =>
    obtain ⟨rfl, left⟩ := h.told
    refine ⟨⟨(Node.verdict_of_sequence kind).symm, ?_, ?_⟩, within⟩
    · rw [Node.failures, kind]
      exact own
    · intro id member other
      rw [Node.leaves_of_sequence kind other]
      exact left id member

/-! ## Parallel blocks -/

/-- A patient block goes on whatever a child has come to, with a value for it. -/
theorem judge_of_patient (answer : Call → Except String Json) {spec : ParallelSpec}
    (waits : spec.waitForAll = true) (slow : spec.failFast = false) (firstError : Option Fault)
    (child : Node) :
    ∃ error, judge spec firstError child (child.verdict answer) =
      .goOn (Standing.kept child.id (child.verdict answer)) error := by
  have plain : Plain (child.verdict answer) := child.plain_verdict
  cases outcome : child.verdict answer with
  | ok value => exact ⟨firstError, by simp [judge, waits, Standing.kept]⟩
  | error fault =>
    exact ⟨firstError.or (some fault), by simp [judge, slow, plain fault outcome, Standing.kept]⟩

/-- A block at some time: what its lanes hold is foretold, and the children in its queue have not
begun. -/
structure InBlock (answer : Call → Except String Json) (origin now : Standings) (node : Node)
    (lanes : List (Lane Activity)) (queue : List Node) : Prop where
  own : now node.id = (origin node.id).begin
  children : node.children = lanes.map Lane.child ++ queue
  inLanes : ∀ lane ∈ lanes, InLane answer origin now lane
  waiting : Idle origin now queue

section

variable {spec : ParallelSpec} {lanes : List (Lane Activity)} {queue : List Node}

/-- The value of a block all of whose children have ended. -/
theorem InBlock.worked (h : InBlock answer origin now node lanes [])
    (kind : node.kind = .parallel spec) (slow : spec.failFast = false) (distinct : node.ids.Nodup)
    (idle : ¬lanes.any Lane.isRunning = true) (firstError : Option Fault) :
    Worked answer origin now node (.ended (conclude spec lanes firstError)) := by
  have children : node.children = lanes.map Lane.child := h.children.trans (List.append_nil _)
  have ended : ∀ lane ∈ lanes, lane.slot = Standing.kept lane.child.id (lane.child.verdict answer) ∧
      Left answer origin now lane.child := by
    intro lane member
    have inLane := h.inLanes lane member
    cases lane with
    | running child activity => exact absurd (List.any_eq_true.2 ⟨_, member, rfl⟩) idle
    | ended child slot => exact inLane
  have concluded : conclude spec lanes firstError = .ok (.arr (lanes.map Lane.slot)) := by
    cases firstError <;> simp [conclude, slow]
  have slots : Node.slots answer node.children = lanes.map Lane.slot := by
    rw [Node.slots_eq_map, children, List.map_map]
    exact List.map_congr_left fun lane member => (ended lane member).1.symm
  refine ⟨?_, ?_, ?_⟩
  · rw [concluded, Node.verdict_of_parallel kind, slots]
  · rw [Node.failures, kind]
    exact h.own
  · intro id member other
    obtain ⟨child, hchild, inside⟩ := Node.mem_idsAll.1 member
    rw [Node.leaves_of_parallel kind other,
      Node.leavesAll_of_mem (Node.nodup_children distinct) hchild inside]
    rw [children] at hchild
    obtain ⟨lane, hlane, rfl⟩ := List.mem_map.1 hchild
    exact (ended lane hlane).2 id inside

/-- A block that waits has a lane in which a child runs, or a child that may start. -/
theorem InBlock.underway (h : InBlock answer origin now node lanes queue)
    (kind : node.kind = .parallel spec) {door : Option Nat}
    (entry : door.isSome = true → queue ≠ [])
    (busy : door.isSome = true ∨ ∃ lane ∈ lanes, Lane.isRunning lane = true)
    (firstError : Option Fault) :
    Underway answer origin now node (.parallel node spec lanes queue door firstError) := by
  refine .parallel kind h.own h.children
    (fun child activity member => h.inLanes (.running child activity) member)
    (fun child slot member => h.inLanes (.ended child slot) member) h.waiting entry ?_
  refine busy.imp_right fun ⟨lane, member, running⟩ => ?_
  cases lane with
  | ended child slot => cases running
  | running child activity => exact ⟨child, activity, member⟩

/-- A block works as foretold if what is in it is as foretold. -/
theorem works_carryOn (kind : node.kind = .parallel spec) (slow : spec.failFast = false)
    (distinct : node.ids.Nodup) {limit : Nat} (positive : 0 < limit) {firstError : Option Fault}
    (h : InBlock answer origin s.context.standing node lanes queue) :
    Works answer origin node s (carryOn node spec limit lanes firstError s queue) := by
  cases queue with
  | nil =>
    rw [carryOn]
    split
    · next busy =>
      refine ⟨h.underway kind ?_ (.inr (List.any_eq_true.1 busy)) firstError, .refl s⟩
      exact fun opened => absurd opened Bool.false_ne_true
    · next idle => exact ⟨h.worked kind slow distinct idle firstError, .refl s⟩
  | cons child rest =>
    rw [carryOn]
    split
    · next full =>
      have busy := List.countP_pos_iff.1 (Nat.lt_of_lt_of_le positive full)
      refine ⟨h.underway kind ?_ (.inr busy) firstError, .refl s⟩
      exact fun opened => absurd opened Bool.false_ne_true
    · exact ⟨h.underway kind (fun _ => List.cons_ne_nil child rest) (.inl rfl) firstError,
        .of_eq rfl⟩

end

/-- A block some of whose lanes stand aside while one of its children is looked at. -/
structure Beside (answer : Call → Except String Json) (origin now : Standings) (node : Node)
    (others : List (Lane Activity)) (queue : List Node) : Prop where
  own : now node.id = (origin node.id).begin
  inLanes : ∀ lane ∈ others, InLane answer origin now lane
  waiting : Idle origin now queue

section

variable {spec : ParallelSpec} {before after : List (Lane Activity)} {child : Node}
  {queue : List Node}

/-- What a child does leaves the rest of its block as it is. -/
theorem Beside.keep (h : Beside answer origin s.context.standing node (before ++ after) queue)
    (distinct : node.ids.Nodup)
    (children : node.children = before.map Lane.child ++ child :: after.map Lane.child ++ queue)
    (within : Within child.ids s s') :
    Beside answer origin s'.context.standing node (before ++ after) queue := by
  have distinctChildren := Node.nodup_children distinct
  have apart := apart_of_children children distinctChildren
  have member : child ∈ node.children := by
    rw [children]
    simp
  have same (n : Node) (hn : n ∈ (before ++ after).map Lane.child ++ queue) :
      ∀ id ∈ n.ids, s'.context.standing id = s.context.standing id :=
    fun id inside => within.apart id (apart n hn inside)
  refine ⟨(within.apart _ fun inside => ?_).trans h.own, fun lane hlane => ?_, fun id inside => ?_⟩
  · exact Node.id_notMem_children distinct (Node.idsAll_subset member inside)
  · exact (h.inLanes lane hlane).keep
      (same lane.child (List.mem_append_left _ (List.mem_map_of_mem hlane)))
  · obtain ⟨n, hn, hid⟩ := Node.mem_idsAll.1 inside
    rw [same n (List.mem_append_right _ hn) id hid]
    exact h.waiting id inside

/-- The child takes its place between the other lanes. -/
theorem Beside.inBlock (h : Beside answer origin now node (before ++ after) queue)
    (children : node.children = before.map Lane.child ++ child :: after.map Lane.child ++ queue)
    {lane : Lane Activity} (same : lane.child = child) (inLane : InLane answer origin now lane) :
    InBlock answer origin now node (before ++ lane :: after) queue := by
  refine ⟨h.own, ?_, fun other member => ?_, h.waiting⟩
  · rw [children, List.map_append, List.map_cons, same]
  · rw [List.mem_append, List.mem_cons] at member
    rcases member with member | rfl | member
    · exact h.inLanes other (List.mem_append_left _ member)
    · exact inLane
    · exact h.inLanes other (List.mem_append_right _ member)

/-- A patient block goes on after the end of a child. -/
theorem works_afterChild (kind : node.kind = .parallel spec) (waits : spec.waitForAll = true)
    (slow : spec.failFast = false) (distinct : node.ids.Nodup) {limit : Nat} (positive : 0 < limit)
    {firstError : Option Fault}
    (children : node.children = before.map Lane.child ++ child :: after.map Lane.child ++ queue)
    (h : Beside answer origin s.context.standing node (before ++ after) queue)
    (left : Left answer origin s.context.standing child) :
    Works answer origin node s
      (afterChild node spec limit queue firstError s before child (child.verdict answer) after) := by
  obtain ⟨error, judged⟩ := judge_of_patient answer waits slow firstError child
  have block : InBlock answer origin s.context.standing node
      (before ++ .ended child (Standing.kept child.id (child.verdict answer)) :: after) queue :=
    h.inBlock children rfl ⟨rfl, left⟩
  rw [afterChild, judged]
  dsimp only
  rw [List.append_assoc]
  exact works_carryOn kind slow distinct positive block

end

/-! ## Nodes -/

/-- Every task is called at least once. -/
theorem attempts_pos (spec : TaskSpec) : 0 < attempts spec := by
  have : 0 < UInt32.size - 1 := by decide
  rw [attempts]
  omega

/-- A task without placeholders calls what is written in the tree. -/
theorem callOf_eq {spec : TaskSpec}
    (plain : ∀ body, ¬Template.Holds (.obj spec.parameters) body) (s : RunState) :
    callOf spec s = spec.call := by
  have same := Template.resolve_of_plain (.obj spec.parameters) plain s.context.scope
  rw [Template.resolve, Json.obj.injEq] at same
  rw [callOf, same]
  rfl

/-- A patient node that starts comes to what is foretold, unless the run is cancelled. -/
theorem comes_start (answers : engine.executor.Answers answer) (node : Node)
    (patient : node.Patient) (distinct : node.ids.Nodup) : Starts answer origin engine node := by
  induction node using Node.induction with
  | step node ih =>
    intro s idle live
    have alive : s.context.cancelled = false := alive_of (dead_start node) live
    rw [start_eq, if_neg (ne_true_of_eq_false alive)] at live ⊢
    have live : (work engine node (s.startNode node)).1.context.cancelled = false :=
      alive_of dead_close live
    have idle : ∀ id ∈ node.ids, s.context.standing id = origin id := by
      intro id member
      exact idle id (List.mem_append_left _ member)
    have own : (s.startNode node).context.standing node.id = (origin node.id).begin := by
      rw [s.standing_startNode, if_pos rfl, idle _ node.mem_ids_self]
    have below : ∀ id ∈ Node.idsAll node.children, node.id ≠ id →
        (s.startNode node).context.standing id = origin id := by
      intro id member other
      rw [s.standing_startNode, if_neg other]
      exact idle id (Node.idsAll_children_subset node member)
    have fresh : Idle origin (s.startNode node).context.standing node.children := by
      intro id member
      apply below id member
      rintro rfl
      exact Node.id_notMem_children distinct member
    have each : ∀ child ∈ node.children, Starts answer origin engine child := by
      intro child member
      have inner := Node.nodup_ids_of_mem (Node.nodup_children distinct) member
      exact ih child member (patient.child member) inner
    have begun : Within node.ids s (s.startNode node) := .startNode node.mem_ids_self
    have bides : node.Bides := patient node node.mem_preorder_self
    refine comes_close (Onward.after ?_ begun)
    unfold work at live ⊢
    unfold Node.Bides at bides
    cases kind : node.kind with
    | task spec =>
      simp only [kind] at bides
      simp only [kind, callOf_eq bides.2] at live ⊢
      have trying : Trying answer origin (s.startNode node).context.standing node spec
          (attempts spec) := by
        refine ⟨kind, Nat.le_refl _, fun less => absurd less (Nat.lt_irrefl _), ?_, below⟩
        rw [Nat.sub_self]
        exact own
      exact works_attempt answers bides.1 (attempts spec) _ trying (attempts_pos spec) live
    | sequence =>
      simp only [kind] at live ⊢
      have passes := passes_startAll each [] (Node.nodup_children distinct) rfl
        (fun _ => nofun) fresh (alive_of dead_asSequence live)
      exact works_asSequence kind distinct own passes
    | parallel spec =>
      simp only [kind] at live bides ⊢
      have block : InBlock answer origin (s.startNode node).context.standing node [] node.children :=
        ⟨own, rfl, nofun, fresh⟩
      exact works_carryOn kind bides.2 distinct (laneLimit_pos ..) block
    | condition | loop | wait =>
      simp only [kind] at bides

end Forecast

end Stepwise

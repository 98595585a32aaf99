import Stepwise.Run.Resume
import Stepwise.Proofs.Run.Advance

/-!
# Tickets

Every wait inside an activity has a ticket of its own. A ticket that an activity does not hold
wakes nothing in it (`resume_of_notMem`), and in a parallel block at most one lane goes on
(`resumeLanes_split`). New waits take new tickets, so the tickets of an activity stay pairwise
distinct: `ticketed_start` and `ticketed_resume`.
-/

namespace Stepwise

namespace Activity

/-- Induction over activities: in a parallel block the activities are those in its lanes. -/
theorem induction {P : Activity → Prop}
    (calling : ∀ node spec call left reply ticket due limit,
      P (.calling node spec call left reply ticket due limit))
    (pausing : ∀ node spec call left ticket due, P (.pausing node spec call left ticket due))
    (polling : ∀ node spec deadline ticket due, P (.polling node spec deadline ticket due))
    (sequence : ∀ node done current rest, P current → P (.sequence node done current rest))
    (branch : ∀ node current, P current → P (.branch node current))
    (loop : ∀ node spec remaining finished done current rest, P current →
      P (.loop node spec remaining finished done current rest))
    (parallel : ∀ node spec lanes queue door firstError,
      (∀ child activity, .running child activity ∈ lanes → P activity) →
      P (.parallel node spec lanes queue door firstError))
    (activity : Activity) : P activity := by
  refine @Activity.rec P
    (fun lanes => ∀ child activity, .running child activity ∈ lanes → P activity)
    (fun lane => ∀ child activity, lane = .running child activity → P activity)
    calling pausing polling sequence branch loop parallel ?nil ?cons ?running ?ended activity
  case nil => simp
  case cons =>
    intro lane rest hlane hrest child activity member
    rcases List.mem_cons.1 member with rfl | member
    · exact hlane child activity rfl
    · exact hrest child activity member
  case running =>
    rintro child activity h _ _ ⟨⟩
    exact h
  case ended =>
    rintro _ _ _ _ ⟨⟩

mutual

/-- The tickets inside an activity: those of its waits, and of the children that may start. -/
def tickets : Activity → List Nat
  | .calling _ _ _ _ _ ticket _ _ => [ticket]
  | .pausing _ _ _ _ ticket _ => [ticket]
  | .polling _ _ _ ticket _ => [ticket]
  | .sequence _ _ current _ => tickets current
  | .branch _ current => tickets current
  | .loop _ _ _ _ _ current _ => tickets current
  | .parallel _ _ lanes _ door _ => ticketsOfLanes lanes ++ door.toList

/-- The tickets inside the lanes of a block. -/
def ticketsOfLanes : List (Lane Activity) → List Nat
  | [] => []
  | lane :: rest => ticketsOfLane lane ++ ticketsOfLanes rest

/-- The tickets inside a lane. -/
def ticketsOfLane : Lane Activity → List Nat
  | .running _ activity => tickets activity
  | .ended _ _ => []

end

end Activity

namespace Lane

variable {P : Activity → Prop}

/-- What holds of the activities in some lanes and of those in more holds of them all. -/
theorem forall_running_append {lanes more : List (Lane Activity)}
    (h : ∀ child activity, .running child activity ∈ lanes → P activity)
    (other : ∀ child activity, .running child activity ∈ more → P activity) :
    ∀ child activity, .running child activity ∈ lanes ++ more → P activity := by
  intro child activity member
  exact (List.mem_append.1 member).elim (h child activity) (other child activity)

theorem forall_running_singleton {child : Node} {activity : Activity} (h : P activity) :
    ∀ n inner, .running n inner ∈ [Lane.running child activity] → P inner := by
  intro _ _ member
  cases List.mem_singleton.1 member
  exact h

theorem forall_running_ended (child : Node) (slot : Json) :
    ∀ n inner, .running n inner ∈ [Lane.ended child slot] → P inner := by
  intro _ _ member
  cases List.mem_singleton.1 member

end Lane

/-- The tickets in a lane. -/
def Lane.tickets : Lane Activity → List Nat
  | running _ activity => activity.tickets
  | ended .. => []

/-- A block holds the tickets of its lanes, and that of the child whose turn has come. -/
theorem Activity.tickets_parallel (node : Node) (spec : ParallelSpec) (lanes : List (Lane Activity))
    (queue : List Node) (door : Option Nat) (firstError : Option Fault) :
    (Activity.parallel node spec lanes queue door firstError).tickets =
      lanes.flatMap Lane.tickets ++ door.toList := by
  have lanesEq : ticketsOfLanes lanes = lanes.flatMap Lane.tickets := by
    induction lanes with
    | nil => rfl
    | cons lane rest ih =>
      rw [ticketsOfLanes, ih, List.flatMap_cons]
      cases lane <;> rfl
  rw [tickets, lanesEq]

/-- A ticket of a block is one in a lane, or that of the child that may start next. -/
theorem Activity.mem_tickets_parallel {node : Node} {spec : ParallelSpec}
    {lanes : List (Lane Activity)} {queue : List Node} {door : Option Nat}
    {firstError : Option Fault} {ticket : Nat} :
    ticket ∈ (Activity.parallel node spec lanes queue door firstError).tickets ↔
      ticket ∈ lanes.flatMap Lane.tickets ∨ door = some ticket := by
  rw [tickets_parallel, List.mem_append, Option.mem_toList]

/-- The tickets in the lanes of a block are pairwise distinct, and differ from that of the child
that may start next. -/
theorem Activity.nodup_parallel {node : Node} {spec : ParallelSpec}
    {lanes : List (Lane Activity)} {queue : List Node} {door : Option Nat}
    {firstError : Option Fault}
    (distinct : (Activity.parallel node spec lanes queue door firstError).tickets.Nodup) :
    (lanes.flatMap Lane.tickets).Nodup ∧
      ∀ ticket ∈ lanes.flatMap Lane.tickets, door ≠ some ticket := by
  rw [tickets_parallel, List.nodup_append] at distinct
  refine ⟨distinct.1, fun ticket member same => ?_⟩
  exact distinct.2.2 ticket member ticket (Option.mem_toList.2 same) rfl

/-- A block holds a ticket if a child may start, or if one runs and each of the running lanes holds
one. -/
theorem Activity.tickets_parallel_ne_nil {node : Node} {spec : ParallelSpec}
    {lanes : List (Lane Activity)} {queue : List Node} {door : Option Nat}
    {firstError : Option Fault}
    (busy : door.isSome = true ∨ ∃ child activity, .running child activity ∈ lanes)
    (each : ∀ child activity, .running child activity ∈ lanes → activity.tickets ≠ []) :
    (Activity.parallel node spec lanes queue door firstError).tickets ≠ [] := by
  rcases busy with open' | ⟨child, activity, member⟩
  · obtain ⟨ticket, same⟩ := Option.isSome_iff_exists.1 open'
    exact List.ne_nil_of_mem (mem_tickets_parallel.2 (.inr same))
  · obtain ⟨ticket, inside⟩ := List.exists_mem_of_ne_nil _ (each child activity member)
    exact List.ne_nil_of_mem
      (mem_tickets_parallel.2 (.inl (List.mem_flatMap.2 ⟨_, member, inside⟩)))

/-! ## Kinds of tickets -/

namespace Activity

theorem timersOfLanes_eq (lanes : List (Lane Activity)) :
    timersOfLanes lanes = lanes.flatMap timersOfLane := by
  induction lanes with
  | nil => rfl
  | cons lane rest ih => rw [timersOfLanes, ih, List.flatMap_cons]

theorem napsOfLanes_eq (lanes : List (Lane Activity)) :
    napsOfLanes lanes = lanes.flatMap napsOfLane := by
  induction lanes with
  | nil => rfl
  | cons lane rest ih => rw [napsOfLanes, ih, List.flatMap_cons]

theorem doorsOfLanes_eq (lanes : List (Lane Activity)) :
    doorsOfLanes lanes = lanes.flatMap doorsOfLane := by
  induction lanes with
  | nil => rfl
  | cons lane rest ih => rw [doorsOfLanes, ih, List.flatMap_cons]

/-- The tickets are those of the waits and those of the children that may start. -/
theorem tickets_perm (activity : Activity) :
    activity.tickets.Perm (activity.timers.map Timer.ticket ++ activity.doors) := by
  induction activity using Activity.induction with
  | calling | pausing | polling => exact .refl _
  | sequence _ _ _ _ ih | branch _ _ ih | loop _ _ _ _ _ _ _ ih => exact ih
  | parallel node spec lanes queue door firstError ih =>
    have inLanes : (lanes.flatMap Lane.tickets).Perm
        ((lanes.flatMap timersOfLane).map Timer.ticket ++ lanes.flatMap doorsOfLane) := by
      induction lanes with
      | nil => exact .refl _
      | cons lane rest others =>
        have first : lane.tickets.Perm
            ((timersOfLane lane).map Timer.ticket ++ doorsOfLane lane) := by
          cases lane with
          | running child activity => exact ih child activity List.mem_cons_self
          | ended child slot => exact .refl _
        have both := first.append
          (others fun child activity member => ih child activity (List.mem_cons_of_mem _ member))
        simp only [List.flatMap_cons, List.map_append]
        refine both.trans ?_
        rw [List.append_assoc, List.append_assoc]
        exact .append_left _ (List.perm_append_comm_assoc ..)
    rw [tickets_parallel, timers, timersOfLanes_eq, doors, doorsOfLanes_eq, ← List.append_assoc]
    exact inLanes.append_right _

/-- Every ticket is that of a wait or that of a child that may start. -/
theorem mem_tickets_iff {ticket : Nat} {activity : Activity} : ticket ∈ activity.tickets ↔
    (∃ timer ∈ activity.timers, timer.ticket = ticket) ∨ ticket ∈ activity.doors := by
  rw [activity.tickets_perm.mem_iff, List.mem_append, List.mem_map]

/-- The waits have tickets of their own, and no child has its turn with one of them. -/
theorem nodup_timers {activity : Activity} (own : activity.tickets.Nodup) :
    (activity.timers.map Timer.ticket).Nodup ∧
      (activity.timers.map Timer.ticket).Disjoint activity.doors := by
  rw [activity.tickets_perm.nodup_iff, List.nodup_append'] at own
  exact ⟨own.1, own.2.2⟩

/-- A wait that a cancellation cuts short has a ticket. -/
theorem naps_subset_tickets (activity : Activity) : activity.naps ⊆ activity.tickets := by
  induction activity using Activity.induction with
  | calling => exact List.nil_subset _
  | pausing | polling => exact List.Subset.refl _
  | sequence _ _ _ _ ih | branch _ _ ih | loop _ _ _ _ _ _ _ ih => exact ih
  | parallel node spec lanes queue door firstError ih =>
    rw [naps, napsOfLanes_eq]
    intro ticket member
    obtain ⟨lane, inside, held⟩ := List.mem_flatMap.1 member
    refine mem_tickets_parallel.2 (.inl (List.mem_flatMap.2 ⟨lane, inside, ?_⟩))
    cases lane with
    | running child activity => exact ih child activity inside held
    | ended child slot => cases held

end Activity

/-- What a node has come to holds the tickets inside it. -/
def Progress.tickets : Progress → List Nat
  | .ended _ => []
  | .waiting activity => activity.tickets

/-- The tickets of the step that waits. -/
def Course.tickets : Course → List Nat
  | .ended _ => []
  | .waiting _ current _ => current.tickets

namespace Run

variable {engine : Engine} {bell : Bell}

/-! ## What a ticket wakes -/

private theorem resumeLanes_idle {lanes : List (Lane Activity)}
    (h : ∀ child activity, .running child activity ∈ lanes → ∀ s : RunState,
      resume engine bell s activity = (s, .waiting activity)) (s : RunState) :
    resumeLanes engine bell s lanes = (s, .none lanes) := by
  induction lanes with
  | nil => rfl
  | cons lane rest ih =>
    have stays : resumeLane engine bell s lane = (s, .kept lane) := by
      cases lane with
      | ended child slot => rfl
      | running child activity => rw [resumeLane, h child activity List.mem_cons_self s]
    rw [resumeLanes, stays]
    simp only [ih fun child activity member => h child activity (List.mem_cons_of_mem _ member)]
    rfl

/-- A ticket that an activity does not hold wakes nothing in it. -/
theorem resume_of_notMem {activity : Activity} (h : bell.ticket ∉ activity.tickets) (s : RunState) :
    resume engine bell s activity = (s, .waiting activity) := by
  induction activity using Activity.induction generalizing s with
  | calling | pausing | polling =>
    rw [resume, if_neg]
    rintro rfl
    exact h List.mem_cons_self
  | sequence node done current rest ih =>
    rw [resume, ih h s]
    rfl
  | branch node current ih =>
    rw [resume, ih h s]
    rfl
  | loop node spec remaining finished done current rest ih =>
    rw [resume, ih h s]
    rfl
  | parallel node spec lanes queue door firstError ih =>
    rw [Activity.mem_tickets_parallel, not_or] at h
    have idle : resumeLanes engine bell s lanes = (s, .none lanes) :=
      resumeLanes_idle (fun child activity member s => ih child activity member
        (fun inside => h.1 (List.mem_flatMap.2 ⟨_, member, inside⟩)) s) s
    rw [resume, if_neg h.2, idle]
    rfl

/-- A ticket that no lane holds leaves the lanes as they are. -/
theorem resumeLanes_of_notMem {lanes : List (Lane Activity)}
    (h : bell.ticket ∉ lanes.flatMap Lane.tickets) (s : RunState) :
    resumeLanes engine bell s lanes = (s, .none lanes) :=
  resumeLanes_idle (fun _ _ member s =>
    resume_of_notMem (fun inside => h (List.mem_flatMap.2 ⟨_, member, inside⟩)) s) s

theorem resumeLane_of_notMem {lane : Lane Activity} (h : bell.ticket ∉ lane.tickets)
    (s : RunState) :
    resumeLane engine bell s lane = (s, .kept lane) := by
  cases lane with
  | ended child slot => rfl
  | running child activity => rw [resumeLane, resume_of_notMem h]

/-- What the lanes of a block come to when the activity in one of them goes on. -/
def laneChange (before : List (Lane Activity)) (child : Node) (after : List (Lane Activity)) :
    RunState × Progress → RunState × LaneChange
  | (s, .ended outcome) => (s, .ended before child outcome after)
  | (s, .waiting activity) => (s, .none (before ++ .running child activity :: after))

/-- Of the lanes of a block only the one goes on that holds the ticket. -/
theorem resumeLanes_split {before after : List (Lane Activity)} {child : Node} {activity : Activity}
    (hbefore : bell.ticket ∉ before.flatMap Lane.tickets)
    (hafter : bell.ticket ∉ after.flatMap Lane.tickets)
    (s : RunState) :
    resumeLanes engine bell s (before ++ .running child activity :: after) =
      laneChange before child after (resume engine bell s activity) := by
  induction before with
  | nil =>
    rw [List.nil_append, resumeLanes, resumeLane]
    generalize resume engine bell s activity = p
    obtain ⟨s', progress⟩ := p
    cases progress with
    | ended outcome => rfl
    | waiting activity =>
      simp only [resumeLanes_of_notMem hafter]
      rfl
  | cons lane rest ih =>
    rw [List.flatMap_cons, List.mem_append, not_or] at hbefore
    rw [List.cons_append, resumeLanes, resumeLane_of_notMem hbefore.1]
    simp only [ih hbefore.2]
    generalize resume engine bell s activity = p
    obtain ⟨s', progress⟩ := p
    cases progress <;> rfl

/-- The lanes beside the one that holds a ticket do not. -/
theorem notMem_lanes_beside {ticket : Nat} {before after : List (Lane Activity)}
    {lane : Lane Activity} (distinct : ((before ++ lane :: after).flatMap Lane.tickets).Nodup)
    (inside : ticket ∈ lane.tickets) :
    ticket ∉ before.flatMap Lane.tickets ∧ ticket ∉ after.flatMap Lane.tickets := by
  rw [List.flatMap_append, List.flatMap_cons, List.nodup_append] at distinct
  obtain ⟨-, distinct, apart⟩ := distinct
  rw [List.nodup_append] at distinct
  refine ⟨fun hbefore => ?_, fun hafter => ?_⟩
  · exact apart _ hbefore _ (List.mem_append_left _ inside) rfl
  · exact distinct.2.2 _ inside _ hafter rfl

/-- The lanes beside one of the lanes of a block are among its lanes. -/
theorem mem_lanes_of_beside {before after : List (Lane Activity)} {lane other : Lane Activity}
    (member : lane ∈ before ++ after) : lane ∈ before ++ other :: after :=
  ((List.sublist_cons_self other after).append_left before).subset member

/-- The tickets in a lane are pairwise distinct if those of its block are. -/
theorem nodup_of_lane {lanes : List (Lane Activity)} {child : Node} {activity : Activity}
    (distinct : (lanes.flatMap Lane.tickets).Nodup) (member : .running child activity ∈ lanes) :
    activity.tickets.Nodup :=
  (List.nodup_flatMap.1 distinct).1 _ member

/-- A lane that holds a ticket stands between lanes that do not. -/
theorem split_of_lane {ticket : Nat} {lanes : List (Lane Activity)}
    (distinct : (lanes.flatMap Lane.tickets).Nodup) {lane : Lane Activity} (member : lane ∈ lanes)
    (inside : ticket ∈ lane.tickets) :
    ∃ before after, lanes = before ++ lane :: after ∧
      ticket ∉ before.flatMap Lane.tickets ∧ ticket ∉ after.flatMap Lane.tickets := by
  obtain ⟨before, after, rfl⟩ := List.append_of_mem member
  exact ⟨before, after, rfl, notMem_lanes_beside distinct inside⟩

/-- Of the lanes of a block the one that holds a ticket is running. -/
theorem exists_lane {ticket : Nat} {lanes : List (Lane Activity)}
    (distinct : (lanes.flatMap Lane.tickets).Nodup)
    (h : ticket ∈ lanes.flatMap Lane.tickets) :
    ∃ before child activity after, lanes = before ++ .running child activity :: after ∧
      ticket ∈ activity.tickets ∧ ticket ∉ before.flatMap Lane.tickets ∧
      ticket ∉ after.flatMap Lane.tickets := by
  obtain ⟨lane, member, inside⟩ := List.mem_flatMap.1 h
  obtain ⟨before, after, split, hbefore, hafter⟩ := split_of_lane distinct member inside
  cases lane with
  | ended child slot => cases inside
  | running child activity => exact ⟨before, child, activity, after, split, inside, hbefore, hafter⟩

/-! ## New tickets -/

/-- The tickets in hand between two counts: pairwise distinct, each an old one or given out since,
and none that is still to be given out. -/
structure Ticketed (old : List Nat) (low high : Nat) (tickets : List Nat) : Prop where
  le : low ≤ high
  nodup : tickets.Nodup
  known : ∀ ticket ∈ tickets, ticket ∈ old ∨ low ≤ ticket
  given : ∀ ticket ∈ tickets, ticket < high

theorem Ticketed.nil {old : List Nat} {low high : Nat} (le : low ≤ high) :
    Ticketed old low high [] := ⟨le, .nil, by simp, by simp⟩

/-- Tickets that were given out since are given out since before. -/
theorem Ticketed.weaken {old : List Nat} {low middle high : Nat} {tickets : List Nat}
    (h : Ticketed [] middle high tickets) (le : low ≤ middle) : Ticketed old low high tickets := by
  refine ⟨Nat.le_trans le h.le, h.nodup, fun ticket member => .inr ?_, h.given⟩
  rcases h.known ticket member with old | new
  · cases old
  · exact Nat.le_trans le new

theorem Ticketed.next (low : Nat) : Ticketed [] low (low + 1) [low] :=
  ⟨Nat.le_succ low, List.nodup_singleton low, by simp, by simp⟩

/-- Tickets taken later come beside those in hand. -/
theorem Ticketed.append {old : List Nat} {low middle high : Nat} {first second : List Nat}
    (hfirst : Ticketed old low middle first) (hsecond : Ticketed [] middle high second) :
    Ticketed old low high (first ++ second) := by
  have later (ticket : Nat) (member : ticket ∈ second) : middle ≤ ticket :=
    (hsecond.known ticket member).resolve_left List.not_mem_nil
  refine ⟨Nat.le_trans hfirst.le hsecond.le, ?_, fun ticket member => ?_, fun ticket member => ?_⟩
  · refine List.nodup_append.2 ⟨hfirst.nodup, hsecond.nodup, fun a ha b hb heq => ?_⟩
    have := hfirst.given a ha
    have := later b hb
    omega
  · rcases List.mem_append.1 member with member | member
    · exact hfirst.known ticket member
    · exact .inr (Nat.le_trans hfirst.le (later ticket member))
  · rcases List.mem_append.1 member with member | member
    · exact Nat.lt_of_lt_of_le (hfirst.given ticket member) hsecond.le
    · exact hsecond.given ticket member

/-- To close a node takes no ticket. -/
theorem tickets_close (node : Node) (p : RunState × Progress) :
    (close node p).1.world.tickets = p.1.world.tickets ∧
      (close node p).2.tickets = p.2.tickets := by
  obtain ⟨s, progress⟩ := p
  cases progress with
  | ended outcome => exact ⟨s.tickets_record node.id outcome, rfl⟩
  | waiting activity => exact ⟨rfl, rfl⟩

theorem ticketed_close {old : List Nat} {low : Nat} {node : Node} {p : RunState × Progress}
    (h : Ticketed old low p.1.world.tickets p.2.tickets) :
    Ticketed old low (close node p).1.world.tickets (close node p).2.tickets := by
  rw [(tickets_close node p).1, (tickets_close node p).2]
  exact h

/-- After an attempt a task waits with a ticket that is new. -/
theorem ticketed_settle {node : Node} {spec : TaskSpec} {call : Call} {left : Nat}
    {again : RunState → RunState × Progress} {outcome : Except Fault Json}
    (next : ∀ s : RunState,
      Ticketed [] s.world.tickets (again s).1.world.tickets (again s).2.tickets) (s : RunState) :
    Ticketed [] s.world.tickets (settle engine node spec call left again s outcome).1.world.tickets
      (settle engine node spec call left again s outcome).2.tickets := by
  unfold settle
  split
  · exact .nil (Nat.le_refl _)
  · cases outcome with
    | ok value => exact .nil (Nat.le_refl _)
    | error fault =>
      dsimp only
      split
      · exact .nil (Nat.le_refl _)
      · split
        · exact next (s.retry node.id (attempts spec - left) fault)
        · exact .next _

/-- However often it is called, a task waits with a ticket that is new. -/
theorem ticketed_attempt (node : Node) (spec : TaskSpec) (call : Call) (left : Nat) :
    ∀ s : RunState, Ticketed [] s.world.tickets (attempt engine node spec call left s).1.world.tickets
      (attempt engine node spec call left s).2.tickets := by
  induction left with
  | zero => exact fun s => .nil (Nat.le_refl _)
  | succ left ih =>
    intro s
    simp only [attempt]
    split
    · have same : ((s.place engine node.id call).2.applyAll
          ((s.place engine node.id call).1.opening ++
            (s.place engine node.id call).1.effects)).world.tickets = s.world.tickets :=
        RunState.tickets_applyAll ..
      rw [← same]
      exact ticketed_settle ih _
    · split
      · have same : ((s.place engine node.id call).2.applyAll
            (s.place engine node.id call).1.opening).world.tickets = s.world.tickets :=
          RunState.tickets_applyAll ..
        rw [← same]
        exact ticketed_settle ih _
      · exact .next _

theorem ticketed_poll (node : Node) (spec : WaitSpec) (deadline : Option Nat) (s : RunState) :
    Ticketed [] s.world.tickets (poll engine node spec deadline s).1.world.tickets
      (poll engine node spec deadline s).2.tickets := by
  unfold poll
  split
  · exact .nil (Nat.le_refl _)
  · split
    · exact .nil (Nat.le_refl _)
    · dsimp only
      split
      · exact .nil (Nat.le_refl _)
      · exact .next _

theorem ticketed_asSequence {old : List Nat} {low : Nat} {node : Node} {p : RunState × Course}
    (h : Ticketed old low p.1.world.tickets p.2.tickets) :
    Ticketed old low (asSequence node p).1.world.tickets (asSequence node p).2.tickets := by
  obtain ⟨s, course⟩ := p
  cases course <;> exact h

theorem ticketed_asBranch {old : List Nat} {low : Nat} {node : Node} {p : RunState × Progress}
    (h : Ticketed old low p.1.world.tickets p.2.tickets) :
    Ticketed old low (asBranch node p).1.world.tickets (asBranch node p).2.tickets := by
  obtain ⟨s, progress⟩ := p
  cases progress <;> exact h

section

variable {nodes : List Node}

/-- Of steps in turn one waits at most, with tickets that are new. -/
theorem ticketed_startAll
    (each : ∀ node ∈ nodes, ∀ s : RunState, Ticketed [] s.world.tickets
      (start engine s node).1.world.tickets (start engine s node).2.tickets) (done : List Json) :
    ∀ s : RunState, Ticketed [] s.world.tickets (startAll engine done s nodes).1.world.tickets
      (startAll engine done s nodes).2.tickets := by
  induction nodes generalizing done with
  | nil =>
    intro s
    rw [startAll]
    exact .nil (Nat.le_refl _)
  | cons node rest ih =>
    intro s
    have first := each node List.mem_cons_self s
    have ih := ih fun n member => each n (List.mem_cons_of_mem _ member)
    rw [startAll]
    generalize start engine s node = p at first
    obtain ⟨s', progress⟩ := p
    cases progress with
    | waiting current => exact first
    | ended outcome =>
      cases outcome with
      | error fault => exact first
      | ok value => exact (ih _ s').weaken first.le

theorem ticketed_startBranch
    (each : ∀ node ∈ nodes, ∀ s : RunState, Ticketed [] s.world.tickets
      (start engine s node).1.world.tickets (start engine s node).2.tickets) (side : Branch)
    (s : RunState) :
    Ticketed [] s.world.tickets (startBranch engine side s nodes).1.world.tickets
      (startBranch engine side s nodes).2.tickets := by
  induction nodes with
  | nil =>
    rw [startBranch]
    exact .nil (Nat.le_refl _)
  | cons node rest ih =>
    rw [startBranch]
    split
    · exact each node List.mem_cons_self s
    · exact ih fun n member => each n (List.mem_cons_of_mem _ member)

end

/-- In whatever round it is, a loop waits with tickets that are new. -/
theorem ticketed_rounds {node : Node} {spec : LoopSpec} {body : RunState → RunState × Course}
    (round : ∀ s : RunState,
      Ticketed [] s.world.tickets (body s).1.world.tickets (body s).2.tickets) (remaining : Nat) :
    ∀ (first : Bool) (finished : List Json) (s : RunState),
      Ticketed [] s.world.tickets (rounds node spec body remaining first finished s).1.world.tickets
        (rounds node spec body remaining first finished s).2.tickets := by
  induction remaining with
  | zero => exact fun _ _ s => .nil (Nat.le_refl _)
  | succ remaining ih =>
    intro first finished s
    rw [rounds]
    split
    · exact .nil (Nat.le_refl _)
    · split
      · exact .nil (Nat.le_refl _)
      · have done : Ticketed [] s.world.tickets
            (body (if first then s else s.rearm node.children)).1.world.tickets
            (body (if first then s else s.rearm node.children)).2.tickets := by
          cases first with
          | true => exact round s
          | false => exact round (s.rearm node.children)
        generalize body (if first then s else s.rearm node.children) = p at done
        obtain ⟨s', course⟩ := p
        cases course with
        | waiting done' current rest => exact done
        | ended outcome =>
          dsimp only
          split
          · exact done
          · exact (ih false _ s').weaken done.le

theorem tickets_stop (before after : List (Lane Activity)) (queue : List Node)
    (outcome : Except Fault Json) (s : RunState) :
    (stop before after queue outcome s).1.world.tickets = s.world.tickets :=
  s.tickets_sweep _

/-- A block that goes on holds the tickets of its lanes and at most a new one. -/
theorem ticketed_carryOn {block : Node} {spec : ParallelSpec} {limit : Nat} {queue : List Node}
    {old : List Nat} {low : Nat} (lanes : List (Lane Activity)) (firstError : Option Fault)
    (s : RunState) (held : Ticketed old low s.world.tickets (lanes.flatMap Lane.tickets)) :
    Ticketed old low (carryOn block spec limit lanes firstError s queue).1.world.tickets
      (carryOn block spec limit lanes firstError s queue).2.tickets := by
  have waits : Ticketed old low s.world.tickets (lanes.flatMap Lane.tickets ++ []) := by
    rw [List.append_nil]
    exact held
  cases queue with
  | nil =>
    rw [carryOn]
    split
    · rw [Progress.tickets, Activity.tickets_parallel]
      exact waits
    · exact .nil held.le
  | cons child rest =>
    rw [carryOn]
    split
    · rw [Progress.tickets, Activity.tickets_parallel]
      exact waits
    · rw [Progress.tickets, Activity.tickets_parallel]
      exact held.append (.next _)

/-- So does a block that goes on after a child has ended. -/
theorem ticketed_afterChild {block : Node} {spec : ParallelSpec} {limit : Nat} {queue : List Node}
    {old : List Nat} {low : Nat} {before after : List (Lane Activity)} (child : Node)
    (outcome : Except Fault Json) (firstError : Option Fault) (s : RunState)
    (held : Ticketed old low s.world.tickets
      (before.flatMap Lane.tickets ++ after.flatMap Lane.tickets)) :
    Ticketed old low
      (afterChild block spec limit queue firstError s before child outcome after).1.world.tickets
      (afterChild block spec limit queue firstError s before child outcome after).2.tickets := by
  unfold afterChild
  split
  · refine ticketed_carryOn _ _ s ?_
    rw [List.flatMap_append, List.flatMap_append, List.flatMap_singleton]
    simpa only [Lane.tickets, List.append_nil] using held
  · rw [tickets_stop]
    exact .nil held.le

/-- Whatever a node has begun waits with tickets that are new. -/
theorem ticketed_work {node : Node}
    (each : ∀ child ∈ node.children, ∀ s : RunState, Ticketed [] s.world.tickets
      (start engine s child).1.world.tickets (start engine s child).2.tickets) (s : RunState) :
    Ticketed [] s.world.tickets (work engine node s).1.world.tickets
      (work engine node s).2.tickets := by
  unfold work
  split
  · exact ticketed_attempt node _ _ _ s
  · exact ticketed_asSequence (ticketed_startAll each [] s)
  · exact ticketed_carryOn [] none s (.nil (Nat.le_refl _))
  · exact ticketed_asBranch (ticketed_startBranch each _ s)
  · exact ticketed_rounds (ticketed_startAll each []) _ true [] s
  · exact ticketed_poll node _ _ s

/-- The waits of a node that starts have new tickets. -/
theorem ticketed_start (node : Node) (s : RunState) :
    Ticketed [] s.world.tickets (start engine s node).1.world.tickets
      (start engine s node).2.tickets := by
  induction node using Node.induction generalizing s with
  | step node ih =>
    rw [start_eq]
    split
    · exact .nil (Nat.le_refl _)
    · exact ticketed_close (ticketed_work ih (s.startNode node))

end Run

end Stepwise

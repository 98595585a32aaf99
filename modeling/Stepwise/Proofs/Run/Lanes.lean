import Stepwise.Proofs.Run.Everywhere
import Stepwise.Proofs.Run.Race

/-!
# Lanes

Of the children of a parallel block no more run at a time than it has lanes, their turns come in the
order in which they stand in the block, and the turn of the next child has come just if there is a
free lane. So whenever a run is suspended, which it is when nobody's turn has come, no child waits
while there is a free lane; and no time passes by the clock before the turns that have come are
taken. This holds of every block for which a run waits, however deep it stands in other blocks
(`Reaches.admits`), since the block is in an execution, and that is a race.
-/

namespace Stepwise

/-- A node that runs in the tree of an activity is that of a part of the activity. -/
theorem Context.Fits.exists_part {context : Context} {live : NodeState} {node n : Node}
    {activity : Activity} (h : context.Fits live node activity) (member : n ∈ node.preorder)
    (runs : context.state n.id = .running) :
    ∃ part : Activity, part.Inside activity ∧ part.node = n := by
  -- What is at rest does not run, so of the children only one can have the node in its tree.
  have busy {child : Node} (settled : context.Settled child) : n ∉ child.preorder :=
    fun within => settled.idle n.id (Node.mem_ids.2 ⟨n, within, rfl⟩) runs
  have only {before after : List Node} {current child : Node}
      (others : ∀ other ∈ before ++ after, context.Settled other)
      (hchild : child ∈ before ++ current :: after) (within : n ∈ child.preorder) :
      n ∈ current.preorder := by
    rcases List.mem_append.1 hchild with earlier | hchild
    · exact absurd within (busy (others child (List.mem_append_left _ earlier)))
    rcases List.mem_cons.1 hchild with rfl | later
    · exact within
    · exact absurd within (busy (others child (List.mem_append_right _ later)))
  have steps {before rest : List Node} (past : ∀ other ∈ before, context.Done other)
      (future : ∀ other ∈ rest, context.Untouched other) :
      ∀ other ∈ before ++ rest, context.Settled other := fun other hother =>
    (List.mem_append.1 hother).elim (fun earlier => (past other earlier).toSettled)
      fun later => (future other later).settled
  induction h with
  | calling _ _ below | pausing _ _ below _ | polling _ _ below =>
    rcases Node.mem_preorder.1 member with rfl | ⟨child, hchild, within⟩
    · exact ⟨_, .self, rfl⟩
    · exact absurd within (busy (below child hchild).settled)
  | sequence _ _ children past _ future ih =>
    rcases Node.mem_preorder.1 member with rfl | ⟨child, hchild, within⟩
    · exact ⟨_, .self, rfl⟩
    · obtain ⟨part, inside, same⟩ := ih (only (steps past future) (children ▸ hchild) within)
      exact ⟨part, .sequence inside, same⟩
  | loop _ _ children past _ future ih =>
    rcases Node.mem_preorder.1 member with rfl | ⟨child, hchild, within⟩
    · exact ⟨_, .self, rfl⟩
    · obtain ⟨part, inside, same⟩ := ih (only (steps past future) (children ▸ hchild) within)
      exact ⟨part, .loop inside, same⟩
  | branch _ _ children others _ ih =>
    rcases Node.mem_preorder.1 member with rfl | ⟨child, hchild, within⟩
    · exact ⟨_, .self, rfl⟩
    · have apart : ∀ other ∈ _, context.Settled other := fun other hother =>
        (others other hother).settled
      obtain ⟨part, inside, same⟩ := ih (only apart (children ▸ hchild) within)
      exact ⟨part, .branch inside, same⟩
  | parallel _ _ children _ ended waiting _ _ _ ih =>
    rcases Node.mem_preorder.1 member with rfl | ⟨child, hchild, within⟩
    · exact ⟨_, .self, rfl⟩
    rw [children] at hchild
    rcases List.mem_append.1 hchild with started | queued
    · obtain ⟨lane, hlane, rfl⟩ := List.mem_map.1 started
      cases lane with
      | running child activity =>
        obtain ⟨part, inside, same⟩ := ih child activity hlane within
        exact ⟨part, .parallel hlane inside, same⟩
      | ended child slot => exact absurd within (busy (ended child slot hlane))
    · exact absurd within (busy (waiting child queued).settled)

namespace Run

/-- A block with the children that run in its lanes or have ended there, and those that wait for
their turn, which has come for the first of them if there is a ticket for it. -/
structure Admits (engine : Engine) (spec : ParallelSpec) (block : Node)
    (lanes : List (Lane Activity)) (queue : List Node) (door : Option Nat) (s : RunState) :
    Prop where
  /-- The children race, and their turns come in order. -/
  race : ∃ s₀ arrivals, Race engine block s₀ arrivals (lanes.filterMap Lane.running?) queue s
  order : block.children = lanes.map Lane.child ++ queue
  within : (lanes.filterMap Lane.running?).length ≤ laneLimit spec block.children.length
  /-- The turn of the next child has come just if there is a free lane. -/
  turn : door.isSome = true ↔
    queue ≠ [] ∧ (lanes.filterMap Lane.running?).length < laneLimit spec block.children.length
  /-- Children run in lanes only. -/
  runs : ∀ child ∈ block.children, s.context.state child.id = .running →
    child ∈ (lanes.filterMap Lane.running?).map Prod.fst
  /-- Nothing in the tree of a child has begun before its turn. -/
  waits : ∀ child ∈ queue, s.context.Untouched child

variable {engine : Engine} {root block : Node} {limit : Option Duration} {s s₀ : RunState}
  {activity part : Activity} {spec : ParallelSpec}

/-- A block in an execution, whose states are what its activity tells, keeps to its lanes. -/
theorem admits_of_executes {wakes : Wakes} (h : Executes engine wakes s part)
    {live : NodeState} (fits : s.context.Fits live part.node part)
    (kind : part.node.kind = .parallel spec) (distinct : part.node.ids.Nodup) :
    ∃ lanes queue door firstError,
      part = .parallel part.node spec lanes queue door firstError ∧
        Admits engine spec part.node lanes queue door s := by
  obtain ⟨s₁, s', live, -, execution, aside⟩ := h
  obtain ⟨q, raced, same⟩ := execution.raced kind live distinct
  rw [eq_of_close_waiting same] at raced
  obtain ⟨lanes, queue, door, firstError, arrivals, running, shape, underway, within, turn⟩ :=
    raced.underway
  refine ⟨lanes, queue, door, firstError, shape, ?_⟩
  have race := underway.race.aside aside
  rw [← underway.lined.runs] at race within turn
  generalize part.node = block at *
  subst shape
  cases fits with
  | parallel _ _ children _ ended waiting =>
    refine ⟨⟨s₁, arrivals, race⟩, children, within, turn, fun child member runs => ?_, waiting⟩
    rw [children] at member
    rcases List.mem_append.1 member with started | queued
    · obtain ⟨lane, hlane, rfl⟩ := List.mem_map.1 started
      cases lane with
      | running child activity =>
        exact List.mem_map.2 ⟨(child, activity), List.mem_filterMap.2 ⟨_, hlane, rfl⟩, rfl⟩
      | ended child slot =>
        exact absurd runs ((ended child slot hlane).idle child.id child.mem_ids_self)
    · exact absurd runs ((waiting child queued).settled.idle child.id child.mem_ids_self)

/-- The ticket of a child whose turn has come in a block is one of those of the run. -/
theorem door_mem_doors {lanes : List (Lane Activity)} {queue : List Node} {ticket : Nat}
    {firstError : Option Fault}
    (inside : (Activity.parallel block spec lanes queue (some ticket) firstError).Inside activity) :
    ticket ∈ activity.doors := by
  generalize same : Activity.parallel block spec lanes queue (some ticket) firstError = part at inside
  induction inside with
  | self =>
    subst same
    exact List.mem_append_right _ List.mem_cons_self
  | sequence _ ih | branch _ ih | loop _ ih => exact ih
  | parallel lane _ ih =>
    rw [Activity.doors, Activity.doorsOfLanes_eq]
    exact List.mem_append_left _ (List.mem_flatMap.2 ⟨_, lane, ih⟩)

/-- A turn that has come is taken before any time passes by the clock. -/
theorem Comes.due_of_turn {bound : Option TimeLimit} {now due : Nat} {cancelled : Bool}
    {stimulus : Stimulus} (turn : activity.doors ≠ [])
    (next : next? now cancelled (.active activity bound) = some (due, stimulus)) : due = now := by
  cases pressing : pressing? now cancelled activity with
  | some stimulus =>
    simp only [next?, pressing] at next
    cases next
    rfl
  | none => exact absurd (ahead_of_pressing? pressing).1 turn

/-- Whatever a run waits for, the parallel blocks that run in its tree are among it, and each of
them keeps to its lanes. When the run is suspended, since nobody's turn has come, none of them has a
child that waits and a free lane as well; and until then no time passes by the clock. -/
theorem Reaches.admits {bound : Option TimeLimit}
    (h : Reaches engine root limit s₀ (s, .active activity bound))
    (untouched : s₀.context.Untouched root) (distinct : root.ids.Nodup)
    (kind : block.kind = .parallel spec) :
    (block ∈ root.preorder → s.context.state block.id = .running →
      ∃ part : Activity, part.Inside activity ∧ part.node = block) ∧
    (∀ part : Activity, part.Inside activity → part.node = block →
      ∃ lanes queue door firstError, part = .parallel block spec lanes queue door firstError ∧
        Admits engine spec block lanes queue door s ∧
        (activity.doors = [] →
          (lanes.filterMap Lane.running?).length < laneLimit spec block.children.length →
          queue = [])) ∧
    (activity.doors ≠ [] → ∀ cancelled due stimulus,
      next? s.now cancelled (.active activity bound) = some (due, stimulus) → due = s.now) := by
  have sound := h.sound untouched distinct
  have executes : Throughout (Executes engine Anytime) s activity := h.executes untouched distinct
  cases sound with
  | active fits =>
    refine ⟨fun member runs => fits.exists_part member runs, ?_,
      fun turn _ _ _ next => Comes.due_of_turn turn next⟩
    rintro part inside rfl
    obtain ⟨member, own⟩ := inside.fits fits
    obtain ⟨lanes, queue, door, firstError, shape, admits⟩ := admits_of_executes
      (executes part inside) own kind (Node.nodup_ids_of_mem_preorder distinct member)
    refine ⟨lanes, queue, door, firstError, shape, admits, fun suspended free => ?_⟩
    cases door with
    | none =>
      by_contra waiting
      exact absurd (admits.turn.2 ⟨waiting, free⟩) Bool.false_ne_true
    | some ticket =>
      have member := door_mem_doors (shape ▸ inside)
      rw [suspended] at member
      cases member

/-! ## A block in a block -/

/-- A block that has one lane. -/
def oneLane : ParallelSpec := { ParallelSpec.standard with maxConcurrency := some 1 }

/-- Two tasks that share a lane. -/
def narrow : Node :=
  let task (id : String) : Node := .make id (.task ⟨"work", [], [], 0, none, none⟩) []
  .make "narrow" (.parallel oneLane) [task "first", task "second"]

/-- A block with a lane for each child, one of which has a lane of its own. -/
def wide : Node :=
  .make "wide" (.parallel .standard)
    [narrow, .make "beside" (.task ⟨"work", [], [], 0, none, none⟩) []]

/-- The turn of the narrow block has come first, and then that of the first task in it. -/
def begun : RunState × Stage :=
  let inner := step slow (launch slow wide none outset).1 (launch slow wide none outset).2
    (.wake ⟨0, false⟩)
  step slow inner.1 inner.2 (.wake ⟨1, false⟩)

/-- The first task of the narrow block runs in a run of the wide one. -/
theorem reaches_begun : Reaches slow wide none outset begun :=
  (Relation.ReflTransGen.single (.any slow _ _ 0 (.wake ⟨0, false⟩))).tail
    (.any slow _ _ 0 (.wake ⟨1, false⟩))

/-- The narrow block keeps to its one lane there, while its second task waits. -/
theorem admits_narrow : wide.ids.Nodup ∧ outset.context.Untouched wide ∧
    narrow ∈ wide.preorder ∧ narrow.kind = .parallel oneLane ∧
    ∃ (s : RunState) (activity part : Activity) (lanes : List (Lane Activity)) (queue : List Node)
      (door : Option Nat) (firstError : Option Fault),
      Reaches slow wide none outset (s, .active activity none) ∧
      s.context.state narrow.id = .running ∧ part.Inside activity ∧
      part = .parallel narrow oneLane lanes queue door firstError ∧
      Admits slow oneLane narrow lanes queue door s := by
  have distinct : wide.ids.Nodup := by decide
  have untouched : outset.context.Untouched wide := fun _ _ => rfl
  have member : narrow ∈ wide.preorder := by
    simp [wide, narrow, Node.make, Node.preorder, Node.preorderAll]
  have kind : narrow.kind = .parallel oneLane := rfl
  have admits := Reaches.admits reaches_begun untouched distinct kind
  obtain ⟨part, inside, same⟩ := admits.1 member rfl
  obtain ⟨lanes, queue, door, firstError, shape, keeps, -⟩ := admits.2.1 part inside same
  exact ⟨distinct, untouched, member, kind, _, _, part, lanes, queue, door, firstError,
    reaches_begun, rfl, inside, shape, keeps⟩

end Run

end Stepwise

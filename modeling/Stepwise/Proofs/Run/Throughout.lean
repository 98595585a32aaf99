import Stepwise.Proofs.Run.Execution

/-!
# Throughout a run

What holds of each activity when its node starts, lasts while the activity waits aside, and is kept
when the activity goes on, holds of all activities inside one another for which a node waits
(`Prevails.start`, `Prevails.resume`).
-/

namespace Stepwise

/-- What runs in a lane. -/
def Lane.activity? {α : Type} : Lane α → Option α
  | running _ activity => some activity
  | ended .. => none

/-- The activities for which an activity waits. -/
def Activity.inner : Activity → List Activity
  | .calling .. => []
  | .pausing .. => []
  | .polling .. => []
  | .sequence _ _ current _ => [current]
  | .branch _ current => [current]
  | .loop _ _ _ _ _ current _ => [current]
  | .parallel _ _ lanes _ _ _ => lanes.filterMap Lane.activity?

theorem Lane.mem_activities {α : Type} {lanes : List (Lane α)} {activity : α} :
    activity ∈ lanes.filterMap Lane.activity? ↔ ∃ child, .running child activity ∈ lanes := by
  rw [List.mem_filterMap]
  constructor
  · rintro ⟨lane, member, same⟩
    cases lane with
    | running child inner =>
      cases same
      exact ⟨child, member⟩
    | ended child slot => cases same
  · rintro ⟨child, member⟩
    exact ⟨_, member, rfl⟩

namespace Activity

variable {part activity : Activity}

/-- What is inside an activity is the activity itself or inside a part of it. -/
theorem inside_iff : part.Inside activity ↔
    part = activity ∨ ∃ current ∈ activity.inner, part.Inside current := by
  constructor
  · intro inside
    cases inside with
    | self => exact .inl rfl
    | sequence inner | branch inner | loop inner => exact .inr ⟨_, List.mem_cons_self, inner⟩
    | parallel lane inner => exact .inr ⟨_, Lane.mem_activities.2 ⟨_, lane⟩, inner⟩
  · rintro (rfl | ⟨current, member, inner⟩)
    · exact .self
    cases activity with
    | calling | pausing | polling => cases member
    | sequence =>
      cases List.mem_singleton.1 member
      exact .sequence inner
    | branch =>
      cases List.mem_singleton.1 member
      exact .branch inner
    | loop =>
      cases List.mem_singleton.1 member
      exact .loop inner
    | parallel =>
      obtain ⟨child, lane⟩ := Lane.mem_activities.1 member
      exact .parallel lane inner

end Activity

namespace Run

/-- All activities inside one another have a property. -/
def Throughout (P : RunState → Activity → Prop) (s : RunState) (activity : Activity) : Prop :=
  ∀ part : Activity, part.Inside activity → P s part

/-- All that waits after something has been done has a property. -/
abbrev Covers (P : RunState → Activity → Prop) (s : RunState) (current : Option Activity) : Prop :=
  ∀ activity ∈ current, Throughout P s activity

/-- All that what waits waits for has a property. -/
abbrev Beneath (P : RunState → Activity → Prop) (s : RunState) (progress : Progress) : Prop :=
  ∀ activity ∈ progress.current?, ∀ part ∈ activity.inner, Throughout P s part

/-- A property of activities starts with them, lasts while they wait, and is kept when they go
on. -/
structure Prevails (engine : Engine) (wakes : Wakes) (P : RunState → Activity → Prop) : Prop where
  waking : Waking wakes
  aside : ∀ {s s' : RunState} {part : Activity}, P s part → Aside part.node.ids s s' →
    s'.now = s.now → P s' part
  starts : ∀ {s s' : RunState} {node : Node} {activity : Activity}, s.context.cancelled = false →
    s.context.Untouched node → start engine s node = (s', .waiting activity) →
    s'.context.Fits .running node activity → P s' activity
  goesOn : ∀ {s s' : RunState} {live live' : NodeState} {node : Node} {part next : Activity}
    {bell : Bell}, P s part → s.context.Fits live node part → bell.ticket ∈ part.tickets →
    wakes s part bell.ticket → resume engine bell s part = (s', .waiting next) →
    s'.context.Fits live' node next → P s' next

variable {engine : Engine} {wakes : Wakes} {P : RunState → Activity → Prop} {node : Node}
  {s s' : RunState} {activity : Activity}

/-- What holds throughout an activity holds of it and throughout its parts. -/
theorem throughout_iff : Throughout P s activity ↔
    P s activity ∧ ∀ part ∈ activity.inner, Throughout P s part := by
  constructor
  · intro h
    refine ⟨h activity .self, fun part member inner inside => ?_⟩
    exact h inner (Activity.inside_iff.2 (.inr ⟨part, member, inside⟩))
  · rintro ⟨own, below⟩ part inside
    rcases Activity.inside_iff.1 inside with rfl | ⟨current, member, inside⟩
    · exact own
    · exact below current member part inside

namespace Prevails

variable (prevails : Prevails engine wakes P)

include prevails

/-- What waits aside keeps the property in all its parts. -/
theorem keeps {context : Context} {live : NodeState} (fits : context.Fits live node activity)
    (h : Throughout P s activity) (aside : Aside node.ids s s') (now : s'.now = s.now) :
    Throughout P s' activity := by
  intro part inside
  obtain ⟨within, -⟩ := inside.fits fits
  exact prevails.aside (h part inside) (aside.mono (Node.ids_subset_of_mem_preorder within)) now

end Prevails

/-! ## Starting -/

/-- What a node waits for once it starts has a property. -/
abbrev CoversStart (engine : Engine) (P : RunState → Activity → Prop) (child : Node) : Prop :=
  ∀ s : RunState, s.context.cancelled = false → s.context.Untouched child →
    Covers P (start engine s child).1 (start engine s child).2.current?

theorem covers_none : Covers P s none := fun _ member => absurd member (Option.not_mem_none _)

/-- What has ended waits for nothing. -/
theorem beneath_ended {outcome : Except Fault Json} : Beneath P s (.ended outcome) :=
  fun _ member => absurd member (Option.not_mem_none _)

/-- Tasks and waits have nothing below them. -/
theorem Alone.beneath {progress : Progress} (h : Alone node progress) : Beneath P s progress := by
  intro activity current part member
  cases h with
  | ended outcome => cases current
  | calling | pausing | polling =>
    cases current
    cases member

/-- What is beneath a sequence is its current step. -/
theorem beneath_asSequence {p : RunState × Course} (h : Covers P p.1 p.2.current?) :
    Beneath P (asSequence node p).1 (asSequence node p).2 := by
  obtain ⟨s', course⟩ := p
  cases course with
  | ended outcome => exact beneath_ended
  | waiting done current rest =>
    rintro _ ⟨⟩ part member
    cases List.mem_singleton.1 member
    exact h current rfl

/-- What is beneath a condition is its branch. -/
theorem beneath_asBranch {p : RunState × Progress} (h : Covers P p.1 p.2.current?) :
    Beneath P (asBranch node p).1 (asBranch node p).2 := by
  obtain ⟨s', progress⟩ := p
  cases progress with
  | ended outcome => exact beneath_ended
  | waiting current =>
    rintro _ ⟨⟩ part member
    cases List.mem_singleton.1 member
    exact h current rfl

theorem beneath_loop {spec : LoopSpec} {remaining : Nat} {finished done : List Json}
    {current : Activity} {rest : List Node} (h : Throughout P s current) :
    Beneath P s (.waiting (.loop node spec remaining finished done current rest)) := by
  rintro _ ⟨⟩ part member
  cases List.mem_singleton.1 member
  exact h

/-- Of steps in turn one waits at most, and what prevails holds of it. -/
theorem covers_startAll {nodes : List Node} (each : ∀ child ∈ nodes, CoversStart engine P child)
    (distinct : (Node.idsAll nodes).Nodup) (done : List Json) :
    ∀ s : RunState, s.context.cancelled = false → (∀ child ∈ nodes, s.context.Untouched child) →
      Covers P (startAll engine done s nodes).1 (startAll engine done s nodes).2.current? := by
  induction nodes generalizing done with
  | nil =>
    intro s _ _
    rw [startAll]
    exact covers_none
  | cons child rest ih =>
    intro s live untouched
    rw [List.forall_mem_cons] at each untouched
    have first := each.1 s live untouched.1
    have advance := advances_start engine child s
    have apart := Node.disjoint_of_cons distinct
    rw [startAll]
    generalize start engine s child = p at first advance
    obtain ⟨s', progress⟩ := p
    cases progress with
    | waiting current => exact first
    | ended outcome =>
      cases outcome with
      | error fault => exact covers_none
      | ok value =>
        refine ih each.2 (Node.nodup_of_cons distinct).2 _ s' advance.heeds fun n member => ?_
        exact advance.acts.untouched (Node.disjoint_of_mem (List.disjoint_symm apart) member)
          (untouched.2 n member)

/-- In whatever round a loop is, what prevails holds of its body. -/
theorem beneath_rounds {spec : LoopSpec} {body : RunState → RunState × Course}
    (round : ∀ s : RunState, s.context.cancelled = false →
      (∀ child ∈ node.children, s.context.Untouched child) →
        Covers P (body s).1 (body s).2.current?)
    (heeds : ∀ s : RunState, s.context.cancelled = false →
      Heeds (body s).1.context.cancelled (body s).2.outcome?) (remaining : Nat) :
    ∀ (first : Bool) (finished : List Json) (s : RunState), s.context.cancelled = false →
      (first = true → ∀ child ∈ node.children, s.context.Untouched child) →
      Beneath P (rounds node spec body remaining first finished s).1
        (rounds node spec body remaining first finished s).2 := by
  induction remaining with
  | zero => exact fun _ _ _ _ _ => beneath_ended
  | succ remaining ih =>
    intro first finished s live untouched
    rw [rounds, if_neg (ne_true_of_eq_false live)]
    split
    · exact beneath_ended
    · -- The body starts in the same state, or in one in which it is rearmed.
      have ready : ∃ s', (if first then s else s.rearm node.children) = s' ∧
          s'.context.cancelled = false ∧ ∀ child ∈ node.children, s'.context.Untouched child := by
        cases first with
        | true => exact ⟨s, rfl, live, untouched rfl⟩
        | false => exact ⟨_, rfl, (s.cancelled_rearm _).trans live, fun _ => s.untouched_rearm⟩
      obtain ⟨s', heq, live', untouched'⟩ := ready
      rw [heq]
      have covered := round s' live' untouched'
      have heeds := heeds s' live'
      generalize body s' = p at covered heeds
      obtain ⟨s'', course⟩ := p
      cases course with
      | waiting done current rest => exact beneath_loop (covered current rfl)
      | ended outcome =>
        have after := heeds_afterRound spec finished heeds
        dsimp only
        generalize afterRound spec finished outcome = next at after
        cases next with
        | inl outcome => exact beneath_ended
        | inr finished =>
          exact ih false finished s'' after fun first => absurd first Bool.false_ne_true

/-- What runs in a lane is an activity of its child, with a property in all parts. -/
def Laned (P : RunState → Activity → Prop) (s : RunState) : Lane Activity → Prop
  | .running child activity =>
    (∃ context live, Context.Fits context live child activity) ∧ Throughout P s activity
  | .ended .. => True

theorem beneath_parallel {spec : ParallelSpec} {lanes : List (Lane Activity)} {queue : List Node}
    {firstError : Option Fault} (laned : ∀ lane ∈ lanes, Laned P s lane) :
    Beneath P s (.waiting (.parallel node spec lanes queue door firstError)) := by
  rintro _ ⟨⟩ part member
  obtain ⟨child, lane⟩ := Lane.mem_activities.1 member
  exact (laned _ lane).2

/-- While one child acts, the lanes of others keep the property. -/
theorem Prevails.laned (prevails : Prevails engine wakes P) {lane : Lane Activity}
    (h : Laned P s lane) (aside : Aside lane.child.ids s s') (now : s'.now = s.now) :
    Laned P s' lane := by
  cases lane with
  | ended child slot => exact trivial
  | running child activity =>
    obtain ⟨⟨context, live, fits⟩, throughout⟩ := h
    exact ⟨⟨context, live, fits⟩, prevails.keeps fits throughout aside now⟩

/-- A node that starts leaves the nodes of other ids alone. -/
theorem aside_start {ids : List String} {child : Node} (untouched : s.context.Untouched child)
    (distinct : child.ids.Nodup) (apart : ids.Disjoint child.ids) :
    Aside ids s (start engine s child).1 := by
  have lawful : Lawful child child.ids s (start engine s child).1
      (start engine s child).2.current? :=
    lawful_start distinct child child.mem_preorder_self s untouched fun _ => .inl rfl
  exact lawful.changes.happensAside (advances_start engine child s).acts apart

/-- A block that goes on has the lanes that it had. -/
theorem beneath_carryOn (prevails : Prevails engine wakes P) {spec : ParallelSpec} {limit : Nat}
    {lanes : List (Lane Activity)} (firstError : Option Fault) (queue : List Node)
    (laned : ∀ lane ∈ lanes, Laned P s lane) :
    Beneath P (carryOn node spec limit lanes firstError s queue).1
      (carryOn node spec limit lanes firstError s queue).2 := by
  cases queue with
  | nil =>
    rw [carryOn]
    split
    · exact beneath_parallel laned
    · exact beneath_ended
  | cons child rest =>
    rw [carryOn]
    split
    · exact beneath_parallel laned
    · exact beneath_parallel fun lane member =>
        prevails.laned (laned lane member) (.takeTicket _ s) rfl

/-- A block that goes on after a child has the other lanes that it had. -/
theorem beneath_afterChild (prevails : Prevails engine wakes P) {spec : ParallelSpec} {limit : Nat}
    {before after : List (Lane Activity)} (queue : List Node) (firstError : Option Fault)
    (child : Node) (outcome : Except Fault Json)
    (laned : ∀ lane ∈ before ++ after, Laned P s lane) :
    Beneath P (afterChild node spec limit queue firstError s before child outcome after).1
      (afterChild node spec limit queue firstError s before child outcome after).2 := by
  unfold afterChild
  split
  · refine beneath_carryOn prevails _ queue fun lane member => ?_
    rw [List.append_assoc, List.singleton_append, List.mem_append, List.mem_cons] at member
    rcases member with member | rfl | member
    · exact laned lane (List.mem_append_left _ member)
    · exact trivial
    · exact laned lane (List.mem_append_right _ member)
  · exact beneath_ended

/-- What prevails holds of a child that starts in its turn. -/
theorem beneath_enter (prevails : Prevails engine wakes P) {spec : ParallelSpec} {limit : Nat}
    {lanes : List (Lane Activity)} {child : Node} {rest : List Node} {firstError : Option Fault}
    (starts : CoversStart engine P child)
    (distinct : (Node.idsAll (lanes.map Lane.child ++ child :: rest)).Nodup)
    (laned : ∀ lane ∈ lanes, Laned P s lane) (untouched : s.context.Untouched child) :
    Beneath P (enter engine node spec limit lanes firstError s (child :: rest)).1
      (enter engine node spec limit lanes firstError s (child :: rest)).2 := by
  have own : child.ids.Nodup := Node.nodup_ids_of_mem distinct (by simp)
  have covered : Covers P (start engine s child).1 (start engine s child).2.current? := by
    by_cases dead : s.context.cancelled = true
    · rw [start_eq, if_pos dead]
      exact covers_none
    · exact starts s (eq_false_of_ne_true dead) untouched
  have placed := placed_start engine child s untouched own
  have others (lane : Lane Activity) (member : lane ∈ lanes) :
      Laned P (start engine s child).1 lane := by
    refine prevails.laned (laned lane member) (aside_start untouched own ?_)
      (advances_start engine child s).acts.now
    exact fun _ => Node.id_notMem_of_split distinct
      (List.mem_append_left _ (List.mem_map_of_mem member))
  rw [enter]
  generalize start engine s child = p at covered placed others
  obtain ⟨s', progress⟩ := p
  cases progress with
  | waiting activity =>
    refine beneath_carryOn prevails firstError rest fun lane member => ?_
    rcases List.mem_append.1 member with old | new
    · exact others lane old
    · cases List.mem_singleton.1 new
      exact ⟨⟨_, _, placed⟩, covered activity rfl⟩
  | ended outcome =>
    refine beneath_afterChild prevails rest firstError child outcome fun lane member => ?_
    rw [List.append_nil] at member
    exact others lane member

/-- Whatever a node has begun, what prevails holds of all beneath it. -/
theorem beneath_work (prevails : Prevails engine wakes P)
    (each : ∀ child ∈ node.children, CoversStart engine P child)
    (distinct : (Node.idsAll node.children).Nodup) (s : RunState)
    (live : s.context.cancelled = false)
    (untouched : ∀ child ∈ node.children, s.context.Untouched child) :
    Beneath P (work engine node s).1 (work engine node s).2 := by
  unfold work
  split
  · next kind => exact (alone_attempt kind _ _ s).beneath
  · exact beneath_asSequence (covers_startAll each distinct [] s live untouched)
  · exact beneath_carryOn prevails none node.children nofun
  · rcases startBranch_eq engine (if s.holds _ then .onTrue else .onFalse) s node.children with
      idle | ⟨before, child, after, split, started⟩
    · rw [idle]
      exact beneath_ended
    · rw [started]
      have member : child ∈ node.children := by simp [split]
      exact beneath_asBranch (each child member s live (untouched child member))
  · refine beneath_rounds (covers_startAll each distinct []) (fun s live => ?_) _ true [] s live
      fun _ => untouched
    exact (proceeds_startAll (fun child member s => (advances_start engine child s).mono
      (Node.idsAll_subset member)) [] s live).heeds
  · next kind => exact (alone_poll kind _ s).beneath

theorem current?_close (node : Node) (p : RunState × Progress) {activity : Activity}
    (h : activity ∈ (close node p).2.current?) : close node p = p ∧ activity ∈ p.2.current? := by
  obtain ⟨s, progress⟩ := p
  cases progress with
  | ended outcome => cases h
  | waiting current => exact ⟨rfl, h⟩

/-- What waits when its end would have been recorded has not ended. -/
theorem eq_of_close_waiting {node : Node} {p : RunState × Progress}
    (h : (s, .waiting activity) = close node p) : p = (s, .waiting activity) := by
  obtain ⟨s', progress⟩ := p
  cases progress with
  | ended outcome => cases h
  | waiting current => exact h.symm

/-- The parts of what a node waits for once it starts have a property that prevails. -/
theorem Prevails.start (prevails : Prevails engine wakes P) (node : Node)
    (distinct : node.ids.Nodup) : CoversStart engine P node := by
  induction node using Node.induction with
  | step node ih =>
    intro s live untouched activity current
    have placed := placed_start engine node s untouched distinct
    obtain ⟨-, below⟩ := s.startNode_of_untouched untouched distinct
    have children := Node.nodup_children distinct
    have worked := beneath_work prevails
      (fun child member => ih child member (Node.nodup_ids_of_mem children member)) children
      (s.startNode node) live below
    have begun : Run.start engine s node = close node (work engine node (s.startNode node)) := by
      rw [start_eq, if_neg (ne_true_of_eq_false live)]
    obtain ⟨closed, inside⟩ := current?_close node _ (begun ▸ current)
    rw [closed] at begun
    refine throughout_iff.2 ⟨?_, ?_⟩
    · generalize hp : Run.start engine s node = p at placed current
      obtain ⟨s', progress⟩ := p
      cases progress with
      | ended outcome => cases current
      | waiting next =>
        cases current
        exact prevails.starts live untouched hp placed
    · rw [begun]
      exact worked activity inside

/-! ## Going on -/

section

variable {bell : Bell}

/-- What prevails holds of steps in turn that go on. -/
theorem covers_andThen (prevails : Prevails engine wakes P) {done : List Json}
    {before rest : List Node} {child : Node}
    (distinct : (Node.idsAll (before ++ child :: rest)).Nodup)
    (future : ∀ n ∈ rest, s.context.Untouched n) {p : RunState × Progress}
    (h : Covers P p.1 p.2.current?) (advance : Advances engine child.ids s p) :
    Covers P (andThen engine done rest p).1 (andThen engine done rest p).2.current? := by
  have apart (n : Node) (member : n ∈ rest) : n.ids.Disjoint child.ids :=
    fun _ => Node.id_notMem_of_split distinct (List.mem_append_right _ member)
  have tail : (Node.idsAll rest).Nodup := by
    rw [Node.idsAll_append, Node.idsAll_cons] at distinct
    exact (List.nodup_append.1 (List.nodup_append.1 distinct).2.1).2.1
  obtain ⟨s', progress⟩ := p
  cases progress with
  | waiting current => exact h
  | ended outcome =>
    cases outcome with
    | error fault => exact covers_none
    | ok value =>
      refine covers_startAll (fun n member => prevails.start n (Node.nodup_ids_of_mem tail member))
        tail (done ++ [value]) s' advance.heeds fun n member => ?_
      exact advance.acts.untouched (apart n member) (future n member)

/-- What prevails holds of a loop that goes on. -/
theorem beneath_goOnLoop (prevails : Prevails engine wakes P) {spec : LoopSpec} {remaining : Nat}
    {finished : List Json} (distinct : (Node.idsAll node.children).Nodup) {p : RunState × Course}
    (h : Covers P p.1 p.2.current?) (goes : Proceeds engine (Node.idsAll node.children) s p) :
    Beneath P (goOnLoop engine node spec remaining finished p).1
      (goOnLoop engine node spec remaining finished p).2 := by
  obtain ⟨s', course⟩ := p
  cases course with
  | waiting done current rest => exact beneath_loop (h current rfl)
  | ended outcome =>
    have heeds := heeds_afterRound spec finished goes.heeds
    simp only [goOnLoop]
    generalize afterRound spec finished outcome = after at heeds
    cases after with
    | inl outcome => exact beneath_ended
    | inr finished =>
      refine beneath_rounds (covers_startAll (fun n member =>
        prevails.start n (Node.nodup_ids_of_mem distinct member)) distinct []) (fun s live => ?_)
        remaining false finished s' heeds fun first => absurd first Bool.false_ne_true
      exact (proceeds_startAll (fun n member s => (advances_start engine n s).mono
        (Node.idsAll_subset member)) [] s live).heeds

/-- What prevails holds of a block that goes on after a wait in one lane. -/
theorem beneath_goOnLanes (prevails : Prevails engine wakes P) {spec : ParallelSpec} {limit : Nat}
    {before after : List (Lane Activity)} {child : Node} {queue : List Node} {door : Option Nat}
    {firstError : Option Fault}
    (children : node.children = before.map Lane.child ++ child :: after.map Lane.child ++ queue)
    (distinct : (Node.idsAll node.children).Nodup)
    (laned : ∀ lane ∈ before ++ after, Laned P s lane) {p : RunState × Progress}
    (h : Covers P p.1 p.2.current?) (now : p.1.now = s.now) (placed : p.1.context.Placed child p.2)
    (beside : ∀ {ids : List String}, ids.Disjoint child.ids → Aside ids s p.1) :
    Beneath P
      (goOnLanes node spec limit queue door firstError (laneChange before child after p)).1
      (goOnLanes node spec limit queue door firstError (laneChange before child after p)).2 := by
  have apart := apart_of_children children distinct
  have others (lane : Lane Activity) (member : lane ∈ before ++ after) : Laned P p.1 lane :=
    prevails.laned (laned lane member)
      (beside (apart _ (List.mem_append_left _ (List.mem_map_of_mem member)))) now
  obtain ⟨s', progress⟩ := p
  cases progress with
  | waiting current =>
    refine beneath_parallel fun lane member => ?_
    rw [List.mem_append, List.mem_cons] at member
    rcases member with member | rfl | member
    · exact others lane (List.mem_append_left _ member)
    · exact ⟨⟨_, _, placed⟩, h current rfl⟩
    · exact others lane (List.mem_append_right _ member)
  | ended outcome => exact beneath_afterChild prevails queue firstError child outcome others

/-- An activity that goes on leaves the nodes of other ids alone. -/
theorem aside_resume {ids : List String} {live : NodeState} (distinct : node.ids.Nodup)
    (fits : s.context.Fits live node activity) (alive : Alive s live)
    (aware : bell.Aware s.context.cancelled) (held : bell.ticket ∈ activity.tickets)
    (own : activity.tickets.Nodup)
    (tried : s.context.cancelled = false → activity.Tried s.context node.ids)
    (apart : ids.Disjoint node.ids) : Aside ids s (resume engine bell s activity).1 := by
  have lawful : Lawful node node.ids s (resume engine bell s activity).1
      (resume engine bell s activity).2.current? :=
    lawful_resume distinct fits alive aware held own tried
  have advance : Advances engine node.ids s (resume engine bell s activity) :=
    advances_resume fits aware held own
  exact lawful.changes.happensAside advance.acts apart

/-- What goes on keeps the property itself, so only its parts are in question. -/
theorem Prevails.covers_resume (prevails : Prevails engine wakes P) {live : NodeState}
    (distinct : node.ids.Nodup) (fits : s.context.Fits live node activity) (alive : Alive s live)
    (aware : bell.Aware s.context.cancelled) (held : bell.ticket ∈ activity.tickets)
    (own : activity.tickets.Nodup)
    (awake : wakes s activity bell.ticket) (h : P s activity)
    (beneath : Beneath P (goOn engine bell s activity).1 (goOn engine bell s activity).2) :
    Covers P (resume engine bell s activity).1 (resume engine bell s activity).2.current? := by
  intro next current
  have placed : (resume engine bell s activity).1.context.Placed node
      (resume engine bell s activity).2 := placed_resume fits alive aware held own distinct
  have goes : resume engine bell s activity =
      close activity.node (goOn engine bell s activity) := resume_eq held
  obtain ⟨closed, inside⟩ := current?_close activity.node _ (goes ▸ current)
  rw [closed] at goes
  refine throughout_iff.2 ⟨?_, ?_⟩
  · generalize hp : resume engine bell s activity = p at placed current
    obtain ⟨s', progress⟩ := p
    cases progress with
    | ended outcome => cases current
    | waiting next =>
      cases current
      exact prevails.goesOn h fits held awake hp placed
  · rw [goes]
    exact beneath next inside

/-- What prevails holds beneath whatever goes on. -/
theorem beneath_goOn (prevails : Prevails engine wakes P) {live : NodeState}
    (distinct : node.ids.Nodup) (fits : s.context.Fits live node activity) (alive : Alive s live)
    (aware : bell.Aware s.context.cancelled) (held : bell.ticket ∈ activity.tickets)
    (own : activity.tickets.Nodup)
    (tried : s.context.cancelled = false → activity.Tried s.context node.ids)
    (awake : wakes s activity bell.ticket) (h : Throughout P s activity) :
    Beneath P (goOn engine bell s activity).1 (goOn engine bell s activity).2 := by
  induction fits with
  | calling kind => exact (alone_answered kind).beneath
  | pausing kind => exact (alone_rested kind).beneath
  | polling kind => exact (alone_poll kind _ s).beneath
  | @sequence node child done current before rest kind _ children past present future ih =>
    have below := Node.nodup_children distinct
    have split := below
    rw [children] at split
    have hchild : child.ids.Nodup := Node.nodup_ids_of_mem split (by simp)
    have throughout := (throughout_iff.1 h).2 current List.mem_cons_self
    have awake := prevails.waking.inherited (.sequence .self) awake
    have inner (alive : s.context.cancelled = false) : current.Tried s.context child.ids := by
      cases tried alive with
      | sequence inner => exact inner.within present
    refine beneath_asSequence (covers_andThen prevails split future
      (prevails.covers_resume hchild present alive aware held own awake (throughout current .self) ?_)
      (advances_resume present aware held own))
    exact ih hchild held own inner awake throughout
  | @branch node child text current before after kind _ children others present ih =>
    have below := Node.nodup_children distinct
    have hchild : child.ids.Nodup := Node.nodup_ids_of_mem below (by simp [children])
    have throughout := (throughout_iff.1 h).2 current List.mem_cons_self
    have awake := prevails.waking.inherited (.branch .self) awake
    have inner (alive : s.context.cancelled = false) : current.Tried s.context child.ids := by
      cases tried alive with
      | branch inner => exact inner.within present
    refine beneath_asBranch
      (prevails.covers_resume hchild present alive aware held own awake (throughout current .self) ?_)
    exact ih hchild held own inner awake throughout
  | @loop node child spec remaining finished done current before rest kind _ children past present
      future ih =>
    have below := Node.nodup_children distinct
    have split := below
    rw [children] at split
    have hchild : child.ids.Nodup := Node.nodup_ids_of_mem split (by simp)
    have throughout := (throughout_iff.1 h).2 current List.mem_cons_self
    have awake := prevails.waking.inherited (.loop .self) awake
    have inner (alive : s.context.cancelled = false) : current.Tried s.context child.ids := by
      cases tried alive with
      | loop inner => exact inner.within present
    have advance : Advances engine child.ids s (resume engine bell s current) :=
      advances_resume present aware held own
    refine beneath_goOnLoop prevails below (covers_andThen prevails split future
      (prevails.covers_resume hchild present alive aware held own awake (throughout current .self) ?_)
      advance) (proceeds_andThen children advance)
    exact ih hchild held own inner awake throughout
  | @parallel node spec lanes queue door firstError kind _ children running ended waiting plain entry
      busy ih =>
    have below := Node.nodup_children distinct
    have throughout (n : Node) (current : Activity) (lane : .running n current ∈ lanes) :
        Throughout P s current :=
      (throughout_iff.1 h).2 current (Lane.mem_activities.2 ⟨n, lane⟩)
    have laned (lane : Lane Activity) (member : lane ∈ lanes) : Laned P s lane := by
      cases lane with
      | ended n slot => exact trivial
      | running n current => exact ⟨⟨_, _, running n current member⟩, throughout n current member⟩
    rcases door_or_lane own held with ⟨rfl, -⟩ |
      ⟨closed, before, child, activity, after, rfl, inside, hbefore, hafter⟩
    · obtain ⟨child, rest, rfl⟩ := List.exists_cons_of_ne_nil (entry rfl)
      rw [children] at below
      rw [goOn_door]
      exact beneath_enter prevails (prevails.start child (Node.nodup_ids_of_mem below (by simp)))
        below laned (waiting child List.mem_cons_self)
    · have inLane : Lane.running child activity ∈ before ++ .running child activity :: after :=
        List.mem_append_right _ List.mem_cons_self
      have member : child ∈ node.children := Context.Fits.lane_child_mem children inLane
      have hchild : child.ids.Nodup := Node.nodup_ids_of_mem below member
      have own := nodup_of_lane (Activity.nodup_parallel own).1 inLane
      have present := running child activity inLane
      have awake := prevails.waking.inherited (.parallel inLane .self) awake
      have inner (alive : s.context.cancelled = false) : activity.Tried s.context child.ids := by
        cases tried alive with
        | parallel inner => exact (inner child activity inLane).within present
      rw [goOn_lane closed hbefore hafter]
      refine beneath_goOnLanes prevails (children.trans (map_child_lanes ..)) below
        (fun lane beside => laned lane (mem_lanes_of_beside beside))
        (prevails.covers_resume hchild present alive aware inside own awake
          (throughout child activity inLane activity .self) ?_)
        (advances_resume present aware inside own).acts.now
        (placed_resume present alive aware inside own hchild)
        (aside_resume hchild present alive aware inside own inner)
      exact ih child activity inLane hchild inside own inner awake
        (throughout child activity inLane)

/-- The parts of what goes on keep a property that prevails, unless the run is deaf to its
cancellation. -/
theorem Prevails.resume_of_aware (prevails : Prevails engine wakes P) {live : NodeState}
    (distinct : node.ids.Nodup) (fits : s.context.Fits live node activity) (alive : Alive s live)
    (aware : bell.Aware s.context.cancelled) (held : bell.ticket ∈ activity.tickets)
    (own : activity.tickets.Nodup)
    (tried : s.context.cancelled = false → activity.Tried s.context node.ids)
    (awake : wakes s activity bell.ticket) (h : Throughout P s activity) :
    Covers P (Run.resume engine bell s activity).1
      (Run.resume engine bell s activity).2.current? :=
  prevails.covers_resume distinct fits alive aware held own awake (h activity .self)
    (beneath_goOn prevails distinct fits alive aware held own tried awake h)

/-- When a part that waits alone gives way to another and nothing else happens to nodes, what is
around it goes on waiting with the property. -/
theorem Prevails.swaps (prevails : Prevails engine wakes P) {live : NodeState}
    {part next after : Activity} (swaps : part.Swaps next activity after) {ticket : Nat}
    {deaf : Bool}
    (distinct : node.ids.Nodup) (fits : s.context.Fits live node activity)
    (own : activity.tickets.Nodup) (held : ticket ∈ part.tickets)
    (waits : Run.resume engine ⟨ticket, deaf⟩ s part = (s', .waiting next))
    (alone : next.inner = [])
    (same : s'.context = s.context)
    (here : ∀ n, s.context.Fits live n part → s.context.Fits live n next)
    (beside : ∀ {ids : List String}, part.node.id ∉ ids → Aside ids s s') (now : s'.now = s.now)
    (awake : ∀ part, wakes s part ticket) (h : Throughout P s activity) :
    Throughout P s' after := by
  -- On the way down to the part each activity goes on to the one in its place.
  have goes {node : Node} {activity after : Activity} (swaps : part.Swaps next activity after)
      (fits : s.context.Fits live node activity) (own : activity.tickets.Nodup)
      (h : Throughout P s activity) : P s' after := by
    have fits' : s'.context.Fits live node after := same ▸ fits.swaps swaps here
    exact prevails.goesOn (h activity .self) fits (swaps.inside.tickets_subset held)
      (awake activity) (resume_swaps swaps held own waits) fits'
  induction swaps generalizing node with
  | self =>
    refine throughout_iff.2 ⟨goes .self fits own h, fun inner member => ?_⟩
    rw [alone] at member
    cases member
  | @sequence node done current after rest inner ih =>
    refine throughout_iff.2 ⟨goes (.sequence inner) fits own h, fun part member => ?_⟩
    cases List.mem_singleton.1 member
    cases fits with
    | sequence kind state children past present future =>
      exact ih (Node.nodup_ids_of_mem (Node.nodup_children distinct) (by simp [children])) present
        own ((throughout_iff.1 h).2 current List.mem_cons_self)
  | @branch node current after inner ih =>
    refine throughout_iff.2 ⟨goes (.branch inner) fits own h, fun part member => ?_⟩
    cases List.mem_singleton.1 member
    cases fits with
    | branch kind state children others present =>
      exact ih (Node.nodup_ids_of_mem (Node.nodup_children distinct) (by simp [children])) present
        own ((throughout_iff.1 h).2 current List.mem_cons_self)
  | @loop node spec remaining finished done current after rest inner ih =>
    refine throughout_iff.2 ⟨goes (.loop inner) fits own h, fun part member => ?_⟩
    cases List.mem_singleton.1 member
    cases fits with
    | loop kind state children past present future =>
      exact ih (Node.nodup_ids_of_mem (Node.nodup_children distinct) (by simp [children])) present
        own ((throughout_iff.1 h).2 current List.mem_cons_self)
  | @parallel node spec before behind queue door firstError child current after inner ih =>
    refine throughout_iff.2 ⟨goes (.parallel inner) fits own h, fun part' member => ?_⟩
    obtain ⟨n, lane⟩ := Lane.mem_activities.1 member
    have below := Node.nodup_children distinct
    have within := (Activity.nodup_parallel own).1
    cases fits with
    | parallel kind state children running ended waiting plain entry busy =>
      have inLane : Lane.running child current ∈ before ++ .running child current :: behind :=
        List.mem_append_right _ List.mem_cons_self
      have hchild : child ∈ node.children := Context.Fits.lane_child_mem children inLane
      have throughout (n : Node) (activity : Activity)
          (lane : .running n activity ∈ before ++ .running child current :: behind) :
          Throughout P s activity :=
        (throughout_iff.1 h).2 activity (Lane.mem_activities.2 ⟨n, lane⟩)
      have present := running child current inLane
      rw [List.mem_append, List.mem_cons] at lane
      have others (lane : .running n part' ∈ before ++ behind) : Throughout P s' part' := by
        have among : Lane.running n part' ∈ before ++ .running child current :: behind :=
          mem_lanes_of_beside lane
        have apart := apart_of_children (children.trans (map_child_lanes ..)) below n
          (List.mem_append_left _ (List.mem_map_of_mem lane))
        refine prevails.keeps (running n part' among) (throughout n part' among) (beside ?_) now
        exact fun hid => apart hid (Node.mem_ids.2 ⟨_, (inner.inside.fits present).1, rfl⟩)
      rcases lane with lane | same | lane
      · exact others (List.mem_append_left _ lane)
      · cases same
        exact ih (Node.nodup_ids_of_mem below hchild) present
          (nodup_of_lane within inLane) (throughout child current inLane)
      · exact others (List.mem_append_right _ lane)

/-- The parts of what goes on keep a property that prevails. -/
theorem Prevails.resume (prevails : Prevails engine wakes P) {live : NodeState}
    (distinct : node.ids.Nodup) (fits : s.context.Fits live node activity) (alive : Alive s live)
    (held : bell.ticket ∈ activity.tickets) (own : activity.tickets.Nodup)
    (tried : s.context.cancelled = false → activity.Tried s.context node.ids)
    (awake : wakes s activity bell.ticket) (h : Throughout P s activity) :
    Covers P (Run.resume engine bell s activity).1
      (Run.resume engine bell s activity).2.current? := by
  by_cases aware : bell.Aware s.context.cancelled
  · exact prevails.resume_of_aware distinct fits alive aware held own tried awake h
  · obtain ⟨ticket, deaf⟩ := bell
    obtain ⟨dead, deafness⟩ := Bell.not_aware aware
    subst deafness
    have unheard := unheard_resume engine ticket fits own dead
    generalize goes : Run.resume engine ⟨ticket, true⟩ s activity = p at unheard
    cases unheard with
    | same =>
      have aware : (⟨ticket, false⟩ : Bell).Aware s.context.cancelled := fun _ => rfl
      exact prevails.resume_of_aware distinct fits alive aware held own tried awake h
    | @atOnce node' spec call left due effects inside =>
      have dead' : ((s.place engine node'.id call).2.applyAll effects).context.cancelled = true := by
        rw [RunState.cancelled_applyAll]
        exact Bool.or_eq_true_iff.2 (.inl dead)
      have ends : ∃ s'' outcome, Run.resume engine ⟨ticket, false⟩ _ activity =
          (s'', .ended outcome) := ended_resume_of_cancelled fits own held (fun _ => rfl) dead'
      obtain ⟨_, outcome, ended⟩ := ends
      rw [ended]
      exact covers_none
    | @later node' spec call left due limit after swaps waits =>
      rintro _ ⟨⟩
      refine prevails.swaps swaps distinct fits own List.mem_cons_self waits rfl rfl
        (fun n inner => ?_) (fun other => ?_) rfl (fun _ => prevails.waking.cutShort dead) h
      · cases inner with
        | pausing kind state below _ => exact .calling kind state below
      · exact ((Aside.place s engine call other).trans (.note _ _ _)).trans (.takeTicket _ _)

end

end Run

end Stepwise

import Stepwise.Proofs.Run.Lawful

/-!
# Going on by the rules

An activity that goes on does so by changes as well (`lawful_resume`), so every state that a run
reaches comes from its beginning by changes (`Reaches.changes`). What holds of the phases of nodes
and of what was told can be shown from the changes alone.
-/

namespace Stepwise.Run

variable {engine : Engine} {root node : Node} {ids : List String} {s s₀ : RunState} {bell : Bell}

/-- Every child starts lawfully below its parent. -/
theorem starts_below (distinct : root.ids.Nodup) (inside : node ∈ root.preorder) {child : Node}
    (member : child ∈ node.children) : Starts engine root node child := by
  intro s live running untouched
  exact lawful_start distinct child (Node.mem_preorder_child inside member) s untouched
    fun _ => .inr ⟨node, inside, member, running⟩

section

variable {spec : TaskSpec} {call : Call} {left : Nat} (inside : node ∈ root.preorder)

include inside

/-- The answer to a call is taken by lawful changes. -/
theorem lawful_answered {reply : Reply} {due : Nat} {limit : Option Nat} (s : RunState)
    (tried : s.context.cancelled = false →
      left < attempts spec ∧ Attempts s node (attempts spec - (left + 1))) :
    Lawful root node.ids s (answered engine node spec call left reply due limit s).1
      (answered engine node spec call left reply due limit s).2.current? := by
  unfold answered
  dsimp only
  split
  · exact lawful_settle inside node.mem_ids_self
      (lawful_attempt inside node.mem_ids_self left) s tried
  · have effected : Change root .heeding node.ids s (s.applyAll reply.effects) :=
      change_applyAll s reply.effects
    refine (lawful_settle inside node.mem_ids_self (lawful_attempt inside node.mem_ids_self left) _
      fun live => ?_).after (.single effected)
    obtain ⟨more, since, phase⟩ := tried (effected.live live)
    exact ⟨more, since, (s.phase_applyAll_of_live live node.id).trans phase⟩

/-- The next attempt of a task is made by lawful changes. -/
theorem lawful_rested (s : RunState) (aware : bell.Aware s.context.cancelled)
    (tried : s.context.cancelled = false →
      left ≤ attempts spec ∧ Attempts s node (attempts spec - left)) :
    Lawful root node.ids s (rested engine node spec call left bell.deaf s).1
      (rested engine node spec call left bell.deaf s).2.current? := by
  unfold rested
  split
  · exact .ended .refl
  · next awake =>
    have live : s.context.cancelled = false := by
      refine eq_false_of_ne_true fun dead => awake ?_
      rw [dead, aware dead]
      rfl
    obtain ⟨enough, tried⟩ := tried live
    exact lawful_attempt inside node.mem_ids_self left s live enough tried

end

section

variable (distinct : root.ids.Nodup) (inside : node ∈ root.preorder)

include distinct inside

/-- While a child changes, the node above it runs on unless the run is cancelled. -/
theorem runs_above {child : Node} (member : child ∈ node.children) {s' : RunState}
    (changes : Changes root .heeding child.ids s s') (live : s'.context.cancelled = false)
    (running : s.context.cancelled = false → s.context.state node.id = .running) :
    s'.context.state node.id = .running := by
  have own := Node.nodup_ids_of_mem_preorder distinct inside
  have same := changes.aside live fun hid =>
    Node.id_notMem_children own (Node.idsAll_subset member hid)
  exact (congrArg Phase.state same).trans (running (changes.live live))

/-- Steps in turn go on by lawful changes. -/
theorem lawful_andThen {done : List Json} {before rest : List Node} {child : Node}
    (children : node.children = before ++ child :: rest)
    (running : s.context.cancelled = false → s.context.state node.id = .running)
    (future : ∀ n ∈ rest, s.context.Untouched n) {p : RunState × Progress}
    (h : Lawful root child.ids s p.1 p.2.current?) (advance : Advances engine child.ids s p) :
    Lawful root (Node.idsAll node.children) s (andThen engine done rest p).1
      (andThen engine done rest p).2.current? := by
  have own := Node.nodup_ids_of_mem_preorder distinct inside
  have member : child ∈ node.children := by simp [children]
  have below := Node.nodup_children own
  rw [children] at below
  have tail : (Node.idsAll rest).Nodup := by
    rw [Node.idsAll_append, Node.idsAll_cons] at below
    exact (List.nodup_append.1 (List.nodup_append.1 below).2.1).2.1
  have apart (n : Node) (hn : n ∈ rest) : n.ids.Disjoint child.ids :=
    fun _ => Node.id_notMem_of_split below (List.mem_append_right _ hn)
  have subset : Node.idsAll rest ⊆ Node.idsAll node.children := by
    rw [children]
    simp
  obtain ⟨s', progress⟩ := p
  cases progress with
  | waiting current => exact h.mono (Node.idsAll_subset member)
  | ended outcome =>
    have changes := h.changes.mono (Node.idsAll_subset member)
    cases outcome with
    | error fault => exact .ended changes
    | ok value =>
      have live : s'.context.cancelled = false := advance.heeds
      have each (n : Node) (hn : n ∈ rest) : Starts engine root node n :=
        starts_below distinct inside (by simp [children, hn])
      have others := lawful_startAll each
        (fun hid => Node.id_notMem_children own (subset hid)) tail (done ++ [value]) s' live
        (runs_above distinct inside member h.changes live running)
        fun n hn => advance.acts.untouched (apart n hn) (future n hn)
      exact (others.mono subset).after changes

/-- A loop goes on by lawful changes. -/
theorem lawful_goOnLoop {spec : LoopSpec} {remaining : Nat} {finished : List Json}
    (running : s.context.cancelled = false → s.context.state node.id = .running)
    {p : RunState × Course} (h : Lawful root (Node.idsAll node.children) s p.1 p.2.current?)
    (goes : Proceeds engine (Node.idsAll node.children) s p) :
    Lawful root (Node.idsAll node.children) s (goOnLoop engine node spec remaining finished p).1
      (goOnLoop engine node spec remaining finished p).2.current? := by
  have own := Node.nodup_ids_of_mem_preorder distinct inside
  have outside := Node.id_notMem_children own
  obtain ⟨s', course⟩ := p
  cases course with
  | waiting done current rest => exact .waiting h.changes (.loop (h.tried current rfl))
  | ended outcome =>
    have heeds := heeds_afterRound spec finished goes.heeds
    simp only [goOnLoop]
    generalize afterRound spec finished outcome = after at heeds
    cases after with
    | inl outcome => exact .ended h.changes
    | inr finished =>
      have each (n : Node) (member : n ∈ node.children) : Starts engine root node n :=
        starts_below distinct inside member
      have again (s : RunState) (live : s.context.cancelled = false) :
          Proceeds engine (Node.idsAll node.children) s (startAll engine [] s node.children) :=
        proceeds_startAll (fun n member s => (advances_start engine n s).mono
          (Node.idsAll_subset member)) [] s live
      have runs : s'.context.state node.id = .running :=
        (congrArg Phase.state (h.changes.aside heeds outside)).trans
          (running (h.changes.live heeds))
      exact (lawful_rounds inside own (lawful_startAll each outside (Node.nodup_children own) [])
        again remaining false finished s' heeds runs fun same => by cases same).after h.changes

section

variable {spec : ParallelSpec} {limit : Nat} {before after : List (Lane Activity)} {child : Node}
  {queue : List Node} {firstError : Option Fault} (plain : PlainError firstError)
  (children : node.children = before.map Lane.child ++ child :: after.map Lane.child ++ queue)
  (tried : s.context.cancelled = false → LanesTried s.context (before ++ after))
  {p : RunState × Progress} (h : Lawful root child.ids s p.1 p.2.current?)

include children tried h

/-- The other lanes of a block are as they were unless the run is cancelled. -/
theorem tried_aside (live : p.1.context.cancelled = false) :
    LanesTried p.1.context (before ++ after) := by
  have own := Node.nodup_ids_of_mem_preorder distinct inside
  have apart := apart_of_children children (Node.nodup_children own)
  exact (tried (h.changes.live live)).aside h.changes live fun lane member =>
    apart _ (List.mem_append_left _ (List.mem_map_of_mem member))

include plain

/-- A block goes on by lawful changes when one of its lanes does. -/
theorem lawful_goOnLanes {door : Option Nat} (advance : Advances engine child.ids s p) :
    Lawful root (Node.idsAll node.children) s
      (goOnLanes node spec limit queue door firstError (laneChange before child after p)).1
      (goOnLanes node spec limit queue door firstError
        (laneChange before child after p)).2.current? := by
  have member : child ∈ node.children := by
    rw [children]
    simp
  have changes := h.changes.mono (Node.idsAll_subset member)
  have others := tried_aside distinct inside children tried h
  obtain ⟨s', progress⟩ := p
  cases progress with
  | waiting current =>
    have others : LanesTried s'.context (before ++ after) := others advance.heeds
    have stands := children.trans (map_child_lanes before (.running child current) after queue).symm
    refine .waiting changes (tried_parallel (fun n inner hn => ?_) stands)
    rw [List.mem_append, List.mem_cons] at hn
    rcases hn with hn | same | hn
    · exact others n inner (List.mem_append_left _ hn)
    · cases same
      exact h.tried current rfl
    · exact others n inner (List.mem_append_right _ hn)
  | ended outcome =>
    exact (lawful_afterChild inside plain children advance.heeds others).after changes

end

/-- A child starts in its turn by lawful changes. -/
theorem lawful_enter {spec : ParallelSpec} {limit : Nat} {lanes : List (Lane Activity)}
    {child : Node} {rest : List Node} {firstError : Option Fault} (plain : PlainError firstError)
    (children : node.children = lanes.map Lane.child ++ child :: rest)
    (tried : s.context.cancelled = false → LanesTried s.context lanes)
    (running : s.context.cancelled = false → s.context.state node.id = .running)
    (untouched : s.context.Untouched child) :
    Lawful root (Node.idsAll node.children) s
      (enter engine node spec limit lanes firstError s (child :: rest)).1
      (enter engine node spec limit lanes firstError s (child :: rest)).2.current? := by
  have member : child ∈ node.children := by
    rw [children]
    simp
  have around := children_of_front children
  have within := Node.mem_preorder_child inside member
  have first : Lawful root child.ids s (start engine s child).1
      (start engine s child).2.current? :=
    lawful_start distinct child within s untouched fun live =>
      .inr ⟨node, inside, member, running live⟩
  have advance := advances_start engine child s
  rw [← List.append_nil lanes] at tried
  have others := tried_aside distinct inside around tried first
  rw [enter]
  generalize start engine s child = p at first advance others
  have changes := first.changes.mono (Node.idsAll_subset member)
  obtain ⟨s', progress⟩ := p
  cases progress with
  | waiting activity =>
    have others : LanesTried s'.context (lanes ++ []) := others advance.heeds
    rw [List.append_nil] at others
    have moved := around.trans (map_child_lanes lanes (.running child activity) [] rest).symm
    exact (lawful_carryOn firstError (others.append (.running (first.tried activity rfl)))
      moved).after changes
  | ended outcome =>
    exact (lawful_afterChild inside plain around advance.heeds others).after changes

end

/-- A node for which an uncancelled run waits is running. -/
theorem Alive.running {live : NodeState} {activity : Activity} (alive : Alive s live)
    (fits : s.context.Fits live node activity) (h : s.context.cancelled = false) :
    s.context.state node.id = .running := by
  rcases alive with rfl | ⟨-, dead⟩
  · exact fits.state_eq
  · rw [h] at dead
    cases dead

/-- What goes on after a wait goes on by lawful changes. -/
theorem lawful_goOn (distinct : root.ids.Nodup) {live : NodeState} {activity : Activity}
    (fits : s.context.Fits live node activity) (alive : Alive s live)
    (aware : bell.Aware s.context.cancelled) (held : bell.ticket ∈ activity.tickets)
    (own : activity.tickets.Nodup) (inside : node ∈ root.preorder)
    (tried : s.context.cancelled = false → activity.Tried s.context node.ids) :
    Lawful root node.ids s (goOn engine bell s activity).1
      (goOn engine bell s activity).2.current? := by
  have resumed {parent child : Node} {current : Activity} (inside : parent ∈ root.preorder)
      (member : child ∈ parent.children) (fits : s.context.Fits live child current)
      (held : bell.ticket ∈ current.tickets) (own : current.tickets.Nodup)
      (inner : Lawful root child.ids s (goOn engine bell s current).1
        (goOn engine bell s current).2.current?) :
      Lawful root child.ids s (resume engine bell s current).1
        (resume engine bell s current).2.current? := by
    have within := Node.mem_preorder_child inside member
    rw [resume_eq held, fits.node_eq]
    exact lawful_close within inner (worked_goOn fits alive aware held own
      (Node.nodup_ids_of_mem_preorder distinct within))
  induction fits with
  | @calling node =>
    refine lawful_answered inside s fun alive => ?_
    cases tried alive with
    | calling _ more phase => exact ⟨more, _, phase⟩
  | @pausing node =>
    refine lawful_rested inside s aware fun alive => ?_
    cases tried alive with
    | pausing _ enough phase => exact ⟨enough, _, phase⟩
  | polling => exact lawful_poll s
  | @sequence node child done current before rest kind state children past present future ih =>
    have member : child ∈ node.children := by simp [children]
    have fits : s.context.Fits live node (.sequence node done current rest) :=
      .sequence kind state children past present future
    have inner (alive : s.context.cancelled = false) : current.Tried s.context child.ids := by
      cases tried alive with
      | sequence inner => exact inner.within present
    have within := Node.mem_preorder_child inside member
    exact (lawful_asSequence (lawful_andThen distinct inside children (alive.running fits) future
      (resumed inside member present held own (ih held own within inner))
      (advances_resume present aware held own))).mono node.idsAll_children_subset
  | @branch node child text current before after kind state children others present ih =>
    have member : child ∈ node.children := by simp [children]
    have inner (alive : s.context.cancelled = false) : current.Tried s.context child.ids := by
      cases tried alive with
      | branch inner => exact inner.within present
    have within := Node.mem_preorder_child inside member
    exact (lawful_asBranch (resumed inside member present held own
      (ih held own within inner))).mono (Node.ids_child_subset member)
  | @loop node child spec remaining finished done current before rest kind state children past
      present future ih =>
    have member : child ∈ node.children := by simp [children]
    have fits : s.context.Fits live node (.loop node spec remaining finished done current rest) :=
      .loop kind state children past present future
    have inner (alive : s.context.cancelled = false) : current.Tried s.context child.ids := by
      cases tried alive with
      | loop inner => exact inner.within present
    have within := Node.mem_preorder_child inside member
    have advance : Advances engine child.ids s (resume engine bell s current) :=
      advances_resume present aware held own
    exact (lawful_goOnLoop distinct inside (alive.running fits)
      (lawful_andThen distinct inside children (alive.running fits) future
        (resumed inside member present held own (ih held own within inner)) advance)
      (proceeds_andThen children advance)).mono node.idsAll_children_subset
  | @parallel node spec lanes queue door firstError kind state children running ended waiting plain
      entry busy ih =>
    have fits : s.context.Fits live node (.parallel node spec lanes queue door firstError) :=
      .parallel kind state children running ended waiting plain entry busy
    have lanesTried (alive : s.context.cancelled = false) : LanesTried s.context lanes := by
      cases tried alive with
      | parallel inner =>
        intro n current hn
        exact (inner n current hn).within (running n current hn)
    rcases door_or_lane own held with ⟨rfl, -⟩ |
      ⟨closed, before, child, activity, after, rfl, hold, hbefore, hafter⟩
    · obtain ⟨child, rest, rfl⟩ := List.exists_cons_of_ne_nil (entry rfl)
      rw [goOn_door]
      exact (lawful_enter distinct inside plain children lanesTried (alive.running fits)
        (waiting child List.mem_cons_self)).mono node.idsAll_children_subset
    · have inLane : Lane.running child activity ∈ before ++ .running child activity :: after :=
        List.mem_append_right _ List.mem_cons_self
      have member : child ∈ node.children := Context.Fits.lane_child_mem children inLane
      have own := nodup_of_lane (Activity.nodup_parallel own).1 inLane
      have within := Node.mem_preorder_child inside member
      have present := running child activity inLane
      rw [goOn_lane closed hbefore hafter]
      exact (lawful_goOnLanes distinct inside plain (children.trans (map_child_lanes ..))
        (fun alive n current beside => lanesTried alive n current (mem_lanes_of_beside beside))
        (resumed inside member present hold own (ih child activity inLane hold own within
          fun alive => lanesTried alive child activity inLane))
        (advances_resume present aware hold own)).mono node.idsAll_children_subset

/-- An activity goes on by the rules. -/
theorem lawful_resume (distinct : root.ids.Nodup) {live : NodeState} {activity : Activity}
    (fits : s.context.Fits live root activity) (alive : Alive s live)
    (aware : bell.Aware s.context.cancelled) (held : bell.ticket ∈ activity.tickets)
    (own : activity.tickets.Nodup)
    (tried : s.context.cancelled = false → activity.Tried s.context root.ids) :
    Lawful root root.ids s (resume engine bell s activity).1
      (resume engine bell s activity).2.current? := by
  have inside := root.mem_preorder_self
  rw [resume_eq held, fits.node_eq]
  exact lawful_close inside (lawful_goOn distinct fits alive aware held own inside tried)
    (worked_goOn fits alive aware held own distinct)

/-! ## Runs -/

variable {limit : Option Duration} {manner : Manner}

/-- Unless a run is cancelled the tasks for which it waits have been tried as often as they say. -/
def Stage.Tried (root : Node) (s : RunState) : Stage → Prop
  | .active activity _ => s.context.cancelled = false → activity.Tried s.context root.ids
  | .ended _ => True

/-- From one state to a stage by changes, and what waits then has been tried as often as it says. -/
structure Kept (root : Node) (manner : Manner) (s : RunState) (p : RunState × Stage) : Prop where
  changes : Changes root manner root.ids s p.1
  tried : p.2.Tried root p.1

/-- What was put off is done by lawful changes. -/
theorem changes_flush (s : RunState) : Changes root manner root.ids s s.flush :=
  .tail (.single (change_note [])) (change_applyAll _ s.world.openings)

/-- What somebody does to a run leaves its tasks as often tried as before. -/
theorem tried_applyAll {activity : Activity} {effects : List Effect}
    (tried : s.context.cancelled = false → activity.Tried s.context root.ids)
    (live : (s.applyAll effects).context.cancelled = false) :
    activity.Tried (s.applyAll effects).context root.ids := by
  have effected : Change root .heeding root.ids s (s.applyAll effects) :=
    change_applyAll s effects
  exact (tried (effected.live live)).keep fun id _ => s.phase_applyAll_of_live live id

theorem kept_waiting {s' : RunState} {activity : Activity} {bound : Option TimeLimit}
    (changes : Changes root manner root.ids s s')
    (tried : s'.context.cancelled = false → activity.Tried s'.context root.ids) :
    Kept root manner s (s'.flush, .active activity bound) := by
  let settled : RunState := { s' with world := { s'.world with openings := [] } }
  have tried : settled.context.cancelled = false → activity.Tried settled.context root.ids := tried
  exact ⟨changes.trans (changes_flush s'), tried_applyAll tried⟩

/-- The end of a step is lawful. -/
theorem kept_ofProgress {bound : Option TimeLimit} {p : RunState × Progress}
    (h : Lawful root root.ids s p.1 p.2.current?) : Kept root manner s (ofProgress bound p) := by
  obtain ⟨s', progress⟩ := p
  cases progress with
  | waiting activity => exact kept_waiting h.changes.of_heeding fun _ => h.tried activity rfl
  | ended outcome => exact ⟨h.changes.of_heeding, trivial⟩

/-- A run is launched by lawful changes. -/
theorem kept_launch (distinct : root.ids.Nodup) (untouched : s.context.Untouched root) :
    Kept root manner s (launch engine root limit s) :=
  kept_ofProgress (lawful_start distinct root root.mem_preorder_self s untouched fun _ => .inl rfl)

section

variable (distinct : root.ids.Nodup) {live : NodeState} {activity : Activity}
  {bound : Option TimeLimit} (fits : s.context.Fits live root activity) (alive : Alive s live)
  (own : activity.tickets.Nodup)
  (tried : s.context.cancelled = false → activity.Tried s.context root.ids)

include distinct fits alive own tried

theorem kept_resume_of_aware (aware : bell.Aware s.context.cancelled) :
    Kept root manner s (ofProgress bound (resume engine bell s activity)) := by
  by_cases held : bell.ticket ∈ activity.tickets
  · exact kept_ofProgress (lawful_resume distinct fits alive aware held own tried)
  · rw [resume_of_notMem held]
    exact kept_waiting .refl tried

/-- Any wait is over by lawful changes, even if the cancellation has not been heard. -/
theorem kept_resume (bell : Bell) :
    Kept root .deaf s (ofProgress bound (resume engine bell s activity)) := by
  by_cases aware : bell.Aware s.context.cancelled
  · exact kept_resume_of_aware distinct fits alive own tried aware
  · obtain ⟨ticket, deaf⟩ := bell
    obtain ⟨dead, deafness⟩ := Bell.not_aware aware
    subst deafness
    -- The call of a cancelled run is made in the name of a node of the tree.
    have stray {node : Node} {spec : TaskSpec} {call : Call} {left due : Nat}
        (inside : (Activity.pausing node spec call left ticket due).Inside activity) :
        Change root .deaf root.ids s (s.place engine node.id call).2 :=
      change_place s engine (Node.mem_ids.2 ⟨node, (inside.fits fits).1, rfl⟩)
        (fun live => absurd dead (ne_true_of_eq_false (live rfl))) call
    have unheard := unheard_resume engine ticket fits own dead
    generalize resume engine ⟨ticket, true⟩ s activity = p at unheard
    cases unheard with
    | same => exact kept_resume_of_aware distinct fits alive own tried fun _ => rfl
    | @atOnce node spec call left due effects inside =>
      have placed : (s.place engine node.id call).2.context.Fits live root activity := fits
      obtain ⟨live', fits', alive'⟩ := fits_applyAll placed alive effects
      have changes : Changes root .deaf root.ids s ((s.place engine node.id call).2.applyAll effects) :=
        .tail (.single (stray inside)) (change_applyAll _ effects)
      have kept : Kept root .deaf ((s.place engine node.id call).2.applyAll effects)
          (ofProgress bound (resume engine ⟨ticket, false⟩
            ((s.place engine node.id call).2.applyAll effects) activity)) := by
        refine kept_resume_of_aware distinct fits' alive' own (fun live => ?_) fun _ => rfl
        exact absurd dead (ne_true_of_eq_false (changes.live live))
      exact ⟨changes.trans kept.changes, kept.tried⟩
    | @later node spec call left due limit after swaps =>
      refine kept_waiting (.tail (.tail (.single (stray swaps.inside)) (change_note _))
        (change_takeTicket _)) fun live => ?_
      exact absurd dead (ne_true_of_eq_false live)

end

/-- Every step of a run is made of lawful changes. -/
theorem kept_step (distinct : root.ids.Nodup) {stage : Stage} (sound : Sound root s stage)
    (tried : stage.Tried root s) (stimulus : Stimulus) :
    Kept root .deaf s (step engine s stage stimulus) := by
  cases sound with
  | ended => exact ⟨.refl, trivial⟩
  | @active activity bound live fits alive own given =>
    cases stimulus with
    | wake bell => exact kept_resume distinct fits alive own tried bell
    | heed =>
      simp only [step, heed]
      split
      · exact kept_resume distinct fits alive own tried _
      · exact ⟨.refl, tried⟩
    | expire =>
      cases bound with
      | none => exact ⟨.refl, tried⟩
      | some bound => exact ⟨.single (change_cancelExecution s), trivial⟩
    | act effects => exact ⟨.single (change_applyAll s effects), tried_applyAll tried⟩

theorem change_later (time : Nat) : Change root manner root.ids s (later s time) :=
  ⟨id, .quiet (fun _ => rfl) (.of_eq rfl), .silent rfl⟩

/-- Every state that a run reaches comes from its beginning by changes. -/
theorem Reaches.kept {p : RunState × Stage} (h : Reaches engine root limit s₀ p)
    (untouched : s₀.context.Untouched root) (distinct : root.ids.Nodup) :
    Kept root .deaf s₀ p := by
  induction h with
  | refl => exact kept_launch distinct untouched
  | @tail p q reached move ih =>
    have sound := Reaches.sound reached untouched distinct
    cases move with
    | step s stage time stimulus =>
      have stepped : Kept root .deaf (later s time) (step engine (later s time) stage stimulus) := by
        refine kept_step distinct (sound.later time) ?_ stimulus
        cases stage with
        | active activity bound => exact ih.tried
        | ended outcome => exact trivial
      exact ⟨(ih.changes.tail (change_later time)).trans stepped.changes, stepped.tried⟩

end Stepwise.Run

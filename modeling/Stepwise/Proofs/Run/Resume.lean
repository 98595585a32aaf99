import Stepwise.Proofs.Run.Placement

/-!
# Going on

What has been shown of nodes that start holds of activities that go on as well: they act on their
own tree and heed the cancellation of the run (`advances_resume`), their new waits have new
tickets (`ticketed_resume`), and they leave the tree in the states that their progress tells
(`placed_resume`).
-/

namespace Stepwise

/-- The node of an activity. -/
def Activity.node : Activity → Node
  | .calling node .. => node
  | .pausing node .. => node
  | .polling node .. => node
  | .sequence node .. => node
  | .branch node .. => node
  | .loop node .. => node
  | .parallel node .. => node

/-- One activity is inside another. -/
inductive Activity.Inside (wait : Activity) : Activity → Prop
  | self : Inside wait wait
  | sequence {node : Node} {done : List Json} {current : Activity} {rest : List Node}
      (inner : Inside wait current) : Inside wait (.sequence node done current rest)
  | branch {node : Node} {current : Activity} (inner : Inside wait current) :
      Inside wait (.branch node current)
  | loop {node : Node} {spec : LoopSpec} {remaining : Nat} {finished done : List Json}
      {current : Activity} {rest : List Node} (inner : Inside wait current) :
      Inside wait (.loop node spec remaining finished done current rest)
  | parallel {node : Node} {spec : ParallelSpec} {lanes : List (Lane Activity)} {queue : List Node}
      {door : Option Nat} {firstError : Option Fault} {child : Node} {activity : Activity}
      (lane : .running child activity ∈ lanes) (inner : Inside wait activity) :
      Inside wait (.parallel node spec lanes queue door firstError)

theorem Activity.Inside.tickets_subset {wait activity : Activity} (h : Inside wait activity) :
    wait.tickets ⊆ activity.tickets := by
  induction h with
  | self => exact List.Subset.refl _
  | sequence _ ih | branch _ ih | loop _ ih => exact ih
  | parallel lane _ ih =>
    exact fun ticket member =>
      mem_tickets_parallel.2 (.inl (List.mem_flatMap.2 ⟨_, lane, ih member⟩))

/-- An activity that fits a node is one of that node. -/
theorem Context.Fits.node_eq {context : Context} {live : NodeState} {node : Node}
    {activity : Activity} (h : context.Fits live node activity) : activity.node = node := by
  cases h <;> rfl

/-- A part of an activity is one of a node in the tree. -/
theorem Activity.Inside.fits {part activity : Activity} (inside : part.Inside activity)
    {context : Context} {live : NodeState} {node : Node} (h : context.Fits live node activity) :
    part.node ∈ node.preorder ∧ context.Fits live part.node part := by
  induction inside generalizing node with
  | self =>
    rw [h.node_eq]
    exact ⟨node.mem_preorder_self, h⟩
  | sequence _ ih =>
    cases h with
    | sequence _ _ children _ present _ =>
      obtain ⟨within, fits⟩ := ih present
      exact ⟨Node.mem_preorder_of_child (by simp [children]) within, fits⟩
  | branch _ ih =>
    cases h with
    | branch _ _ children _ present =>
      obtain ⟨within, fits⟩ := ih present
      exact ⟨Node.mem_preorder_of_child (by simp [children]) within, fits⟩
  | loop _ ih =>
    cases h with
    | loop _ _ children _ present _ =>
      obtain ⟨within, fits⟩ := ih present
      exact ⟨Node.mem_preorder_of_child (by simp [children]) within, fits⟩
  | parallel lane _ ih =>
    cases h with
    | parallel _ _ children running =>
      obtain ⟨within, fits⟩ := ih (running _ _ lane)
      have member := Context.Fits.lane_child_mem children lane
      exact ⟨Node.mem_preorder_of_child member within, fits⟩

/-- A ticket is what an activity itself waits with: for an answer, before the next attempt, before
the next look, or for the turn of a child. -/
inductive Activity.Holds (ticket : Nat) : Activity → Prop
  | calling {node : Node} {spec : TaskSpec} {call : Call} {left : Nat} {reply : Reply} {due : Nat}
      {limit : Option Nat} : Holds ticket (.calling node spec call left reply ticket due limit)
  | pausing {node : Node} {spec : TaskSpec} {call : Call} {left due : Nat} :
      Holds ticket (.pausing node spec call (left + 1) ticket due)
  | polling {node : Node} {spec : WaitSpec} {deadline : Option Nat} {due : Nat} :
      Holds ticket (.polling node spec deadline ticket due)
  | turn {node : Node} {spec : ParallelSpec} {lanes : List (Lane Activity)} {child : Node}
      {rest : List Node} {firstError : Option Fault} :
      Holds ticket (.parallel node spec lanes (child :: rest) (some ticket) firstError)

theorem Activity.Holds.held {ticket : Nat} {part : Activity} (h : part.Holds ticket) :
    ticket ∈ part.tickets := by
  cases h with
  | calling | pausing | polling => exact List.mem_cons_self
  | turn => exact mem_tickets_parallel.2 (.inr rfl)

/-- Of the activities inside one another some one waits with a ticket that they hold. -/
theorem Context.Fits.exists_holds {context : Context} {live : NodeState} {node : Node}
    {activity : Activity} (h : context.Fits live node activity) {ticket : Nat}
    (held : ticket ∈ activity.tickets) :
    ∃ part : Activity, part.Inside activity ∧ part.Holds ticket := by
  induction h with
  | calling =>
    cases List.mem_singleton.1 held
    exact ⟨_, .self, .calling⟩
  | @pausing _ _ _ left _ _ _ _ _ more =>
    obtain ⟨left, rfl⟩ := Nat.exists_eq_succ_of_ne_zero more
    cases List.mem_singleton.1 held
    exact ⟨_, .self, .pausing⟩
  | polling =>
    cases List.mem_singleton.1 held
    exact ⟨_, .self, .polling⟩
  | sequence _ _ _ _ _ _ ih =>
    obtain ⟨part, inside, holds⟩ := ih held
    exact ⟨part, .sequence inside, holds⟩
  | branch _ _ _ _ _ ih =>
    obtain ⟨part, inside, holds⟩ := ih held
    exact ⟨part, .branch inside, holds⟩
  | loop _ _ _ _ _ _ ih =>
    obtain ⟨part, inside, holds⟩ := ih held
    exact ⟨part, .loop inside, holds⟩
  | parallel _ _ _ _ _ _ _ entry _ ih =>
    rcases Activity.mem_tickets_parallel.1 held with inLanes | rfl
    · obtain ⟨lane, member, inLane⟩ := List.mem_flatMap.1 inLanes
      cases lane with
      | ended child slot => cases inLane
      | running child activity =>
        obtain ⟨part, inside, holds⟩ := ih child activity member inLane
        exact ⟨part, .parallel member inside, holds⟩
    · obtain ⟨child, rest, rfl⟩ := List.exists_cons_of_ne_nil (entry rfl)
      exact ⟨_, .self, .turn⟩

/-- A bell is not deaf to a cancellation, or there is none. -/
def Bell.Aware (bell : Bell) (cancelled : Bool) : Prop := cancelled = true → bell.deaf = false

/-- Only a bell that is deaf to a cancellation does not go with it. -/
theorem Bell.not_aware {bell : Bell} {cancelled : Bool} (h : ¬bell.Aware cancelled) :
    cancelled = true ∧ bell.deaf = true := by
  obtain ⟨dead, deaf⟩ := Classical.not_imp.1 h
  exact ⟨dead, eq_true_of_ne_false deaf⟩

namespace Run

variable {engine : Engine} {ids : List String} {bell : Bell} {s : RunState} {node : Node}

/-- What an activity does when a ticket inside it is called, before its end is recorded. -/
def goOn (engine : Engine) (bell : Bell) (s : RunState) : Activity → RunState × Progress
  | .calling node spec call left reply _ due limit =>
    answered engine node spec call left reply due limit s
  | .pausing node spec call left _ _ => rested engine node spec call left bell.deaf s
  | .polling node spec deadline _ _ => poll engine node spec deadline s
  | .sequence node done current rest =>
    asSequence node (andThen engine done rest (resume engine bell s current))
  | .branch node current => asBranch node (resume engine bell s current)
  | .loop node spec remaining finished done current rest =>
    goOnLoop engine node spec remaining finished
      (andThen engine done rest (resume engine bell s current))
  | .parallel node spec lanes queue door firstError =>
    let limit := laneLimit spec (lanes.length + queue.length)
    if door = some bell.ticket then enter engine node spec limit lanes firstError s queue
    else goOnLanes node spec limit queue door firstError (resumeLanes engine bell s lanes)

/-- After a wait in it an activity goes on, and its node is closed if it ends. -/
theorem resume_eq {activity : Activity} (held : bell.ticket ∈ activity.tickets) :
    resume engine bell s activity = close activity.node (goOn engine bell s activity) := by
  cases activity with
  | calling node spec call left reply ticket due limit =>
    rw [resume, if_pos (List.mem_singleton.1 held).symm]
    rfl
  | pausing node spec call left ticket due =>
    rw [resume, if_pos (List.mem_singleton.1 held).symm]
    rfl
  | polling node spec deadline ticket due =>
    rw [resume, if_pos (List.mem_singleton.1 held).symm]
    rfl
  | sequence => rw [resume]; rfl
  | branch => rw [resume]; rfl
  | loop => rw [resume]; rfl
  | parallel => rw [resume]; rfl

/-- When the next child of a block may start it does. -/
theorem goOn_door {spec : ParallelSpec} {lanes : List (Lane Activity)} {queue : List Node}
    {firstError : Option Fault} :
    goOn engine bell s (.parallel node spec lanes queue (some bell.ticket) firstError) =
      enter engine node spec (laneLimit spec (lanes.length + queue.length)) lanes firstError s
        queue := if_pos rfl

/-- When the activity in a lane of a block goes on, nothing else does. -/
theorem goOn_lane {spec : ParallelSpec} {before after : List (Lane Activity)} {child : Node}
    {activity : Activity} {queue : List Node} {door : Option Nat} {firstError : Option Fault}
    (closed : door ≠ some bell.ticket) (hbefore : bell.ticket ∉ before.flatMap Lane.tickets)
    (hafter : bell.ticket ∉ after.flatMap Lane.tickets) :
    goOn engine bell s
        (.parallel node spec (before ++ .running child activity :: after) queue door firstError) =
      goOnLanes node spec
        (laneLimit spec ((before ++ .running child activity :: after).length + queue.length)) queue
        door firstError (laneChange before child after (resume engine bell s activity)) := by
  rw [goOn, if_neg closed, resumeLanes_split hbefore hafter]

/-- A ticket that a block holds is that of the child that may start next, or it is held in just one
lane. -/
theorem door_or_lane {spec : ParallelSpec} {lanes : List (Lane Activity)} {queue : List Node}
    {door : Option Nat} {firstError : Option Fault}
    (distinct : (Activity.parallel node spec lanes queue door firstError).tickets.Nodup)
    (held : bell.ticket ∈ (Activity.parallel node spec lanes queue door firstError).tickets) :
    door = some bell.ticket ∧ bell.ticket ∉ lanes.flatMap Lane.tickets ∨
      door ≠ some bell.ticket ∧ ∃ before child activity after,
        lanes = before ++ .running child activity :: after ∧ bell.ticket ∈ activity.tickets ∧
        bell.ticket ∉ before.flatMap Lane.tickets ∧ bell.ticket ∉ after.flatMap Lane.tickets := by
  obtain ⟨own, apart⟩ := Activity.nodup_parallel distinct
  rcases Activity.mem_tickets_parallel.1 held with inLanes | same
  · exact .inr ⟨apart _ inLanes, exists_lane own inLanes⟩
  · exact .inl ⟨same, fun inLanes => apart _ inLanes same⟩

/-! ## Acts -/

/-- Steps of which one goes on and those after it may follow. -/
theorem proceeds_andThen {done : List Json} {nodes before rest : List Node} {child : Node}
    (split : nodes = before ++ child :: rest) {p : RunState × Progress}
    (h : Advances engine child.ids s p) :
    Proceeds engine (Node.idsAll nodes) s (andThen engine done rest p) := by
  have member (n : Node) (inside : n ∈ child :: rest) : n.ids ⊆ Node.idsAll nodes :=
    Node.idsAll_subset (split ▸ List.mem_append_right _ inside)
  have h := h.mono (member child List.mem_cons_self)
  obtain ⟨s', progress⟩ := p
  cases progress with
  | waiting current => exact ⟨h.does, h.heeds⟩
  | ended outcome =>
    cases outcome with
    | error fault => exact ⟨h.does, h.heeds⟩
    | ok value =>
      have others : Proceeds engine (Node.idsAll nodes) s'
          (startAll engine (done ++ [value]) s' rest) :=
        proceeds_startAll (fun n inside s => (advances_start engine n s).mono
          (member n (List.mem_cons_of_mem _ inside))) _ s' h.heeds
      exact others.after h.does

/-- After a wait in its body a loop heeds a cancellation. -/
theorem advances_goOnLoop {spec : LoopSpec} {remaining : Nat} {finished : List Json}
    {p : RunState × Course} (h : Proceeds engine (Node.idsAll node.children) s p) :
    Advances engine (Node.idsAll node.children) s
      (goOnLoop engine node spec remaining finished p) := by
  obtain ⟨s', course⟩ := p
  cases course with
  | waiting done current rest => exact ⟨h.does, h.heeds⟩
  | ended outcome =>
    have heeds := heeds_afterRound spec finished h.heeds
    simp only [goOnLoop]
    generalize afterRound spec finished outcome = after at heeds
    cases after with
    | inl outcome => exact ⟨h.does, heeds⟩
    | inr finished =>
      have round (s : RunState) (live : s.context.cancelled = false) :
          Proceeds engine (Node.idsAll node.children) s (startAll engine [] s node.children) :=
        proceeds_startAll (fun n member s => (advances_start engine n s).mono
          (Node.idsAll_subset member)) [] s live
      exact (advances_rounds round (List.Subset.refl _) remaining false finished s' heeds).after
        h.does

/-- The children that stand beside a child of a block, or wait in the queue, are among its
children. -/
theorem idsAll_beside_subset {before after : List (Lane Activity)} {lane : Lane Activity}
    {queue : List Node} :
    Node.idsAll ((before ++ after).map Lane.child ++ queue) ⊆
      Node.idsAll ((before ++ lane :: after).map Lane.child ++ queue) := by
  intro id member
  simp only [List.map_append, List.map_cons, Node.idsAll_append, Node.idsAll_cons,
    List.mem_append] at member ⊢
  tauto

/-- After a wait in one of its lanes a block heeds a cancellation. -/
theorem advances_goOnLanes {spec : ParallelSpec} {limit : Nat} {before after : List (Lane Activity)}
    {child : Node} {queue : List Node} {door : Option Nat} {firstError : Option Fault}
    (plain : PlainError firstError) {p : RunState × Progress} (h : Advances engine ids s p)
    (members : Node.idsAll ((before ++ after).map Lane.child ++ queue) ⊆ ids) :
    Advances engine ids s
      (goOnLanes node spec limit queue door firstError (laneChange before child after p)) := by
  obtain ⟨s', progress⟩ := p
  cases progress with
  | waiting activity => exact ⟨h.does, h.heeds⟩
  | ended outcome => exact advances_afterChild plain h.does h.heeds members

/-- After the start of its next child a block heeds a cancellation. -/
theorem advances_enter {spec : ParallelSpec} {limit : Nat} {lanes : List (Lane Activity)}
    {child : Node} {rest : List Node} {firstError : Option Fault} (plain : PlainError firstError)
    (s : RunState) (members : Node.idsAll (lanes.map Lane.child ++ child :: rest) ⊆ ids) :
    Advances engine ids s (enter engine node spec limit lanes firstError s (child :: rest)) := by
  have inside : child.ids ⊆ ids := List.Subset.trans
    (Node.idsAll_subset (List.mem_append_right _ List.mem_cons_self)) members
  have first := (advances_start engine child s).mono inside
  rw [enter]
  generalize start engine s child = p at first
  obtain ⟨s', progress⟩ := p
  cases progress with
  | waiting activity =>
    refine advances_carryOn_waiting rest ?_ first
    rw [List.any_append]
    exact Bool.or_eq_true_iff.2 (.inr rfl)
  | ended outcome =>
    refine advances_afterChild plain first.does first.heeds (List.Subset.trans ?_ members)
    rw [List.append_nil, Node.idsAll_append, Node.idsAll_append, Node.idsAll_cons]
    exact List.append_subset.2 ⟨List.subset_append_left _ _,
      fun _ h => List.mem_append_right _ (List.mem_append_right _ h)⟩

/-- After an answer a task heeds a cancellation. -/
theorem advances_answered {spec : TaskSpec} {call : Call} {left : Nat} {reply : Reply} {due : Nat}
    {limit : Option Nat} (s : RunState) :
    Advances engine ids s (answered engine node spec call left reply due limit s) := by
  unfold answered
  dsimp only
  split
  · exact advances_settle (advances_attempt node spec call left) (plain_lateOutcome spec) s
  · exact (advances_settle (advances_attempt node spec call left) (plain_outcomeOf spec reply)
      _).after (.single (.affect reply.effects))

/-- Whoever is aware of a cancellation makes no other attempt. -/
theorem rested_of_aware {deaf : Bool} (aware : s.context.cancelled = true → deaf = false)
    (node : Node) (spec : TaskSpec) (call : Call) (left : Nat) :
    rested engine node spec call left deaf s =
      if s.context.cancelled then (s, .ended (.error s.cancelledFault))
      else attempt engine node spec call left s := by
  unfold rested
  by_cases dead : s.context.cancelled = true
  · rw [if_pos dead, if_pos]
    rw [dead, aware dead]
    rfl
  · rw [if_neg dead, if_neg]
    rw [eq_false_of_ne_true dead, Bool.false_and]
    exact Bool.false_ne_true

theorem advances_rested {spec : TaskSpec} {call : Call} {left : Nat} {deaf : Bool} (s : RunState)
    (aware : s.context.cancelled = true → deaf = false) :
    Advances engine ids s (rested engine node spec call left deaf s) := by
  rw [rested_of_aware aware]
  by_cases dead : s.context.cancelled = true
  · rw [if_pos dead]
    exact advances_cancelled dead
  · rw [if_neg dead]
    exact advances_attempt node spec call left s (eq_false_of_ne_true dead)

/-- What follows when something inside an activity goes on, by acts on its own tree, from some
state. -/
theorem advances_goOn_of_inside {part activity : Activity} (inside : part.Inside activity)
    (held : bell.ticket ∈ part.tickets) {s' : RunState}
    (first : Advances engine (Node.idsAll part.node.children) s' (goOn engine bell s part))
    {context : Context} {live : NodeState} (h : context.Fits live node activity)
    (distinct : activity.tickets.Nodup) :
    Advances engine (Node.idsAll node.children) s' (goOn engine bell s activity) := by
  have resumed {child : Node} {current : Activity} (fits : context.Fits live child current)
      (held : bell.ticket ∈ current.tickets)
      (inner : Advances engine (Node.idsAll child.children) s' (goOn engine bell s current)) :
      Advances engine child.ids s' (resume engine bell s current) := by
    rw [resume_eq held, fits.node_eq]
    exact advances_close (inner.mono child.idsAll_children_subset) child.mem_ids_self
  induction inside generalizing node with
  | self =>
    rw [← h.node_eq]
    exact first
  | sequence inner ih =>
    cases h with
    | sequence _ _ children _ present _ =>
      exact advances_asSequence (proceeds_andThen children
        (resumed present (inner.tickets_subset held) (ih present distinct)))
  | branch inner ih =>
    cases h with
    | branch _ _ children _ present =>
      refine advances_asBranch
        ((resumed present (inner.tickets_subset held) (ih present distinct)).mono ?_)
      exact Node.idsAll_subset (children ▸ List.mem_append_right _ List.mem_cons_self)
  | loop inner ih =>
    cases h with
    | loop _ _ children _ present _ =>
      exact advances_goOnLoop (proceeds_andThen children
        (resumed present (inner.tickets_subset held) (ih present distinct)))
  | @parallel _ _ _ _ _ _ child activity lane inner ih =>
    cases h with
    | parallel _ _ children running _ _ plain _ _ =>
      obtain ⟨distinct, apart⟩ := Activity.nodup_parallel distinct
      have inLane := inner.tickets_subset held
      have own := nodup_of_lane distinct lane
      have closed := apart _ (List.mem_flatMap.2 ⟨_, lane, inLane⟩)
      obtain ⟨before, after, rfl, hbefore, hafter⟩ := split_of_lane distinct lane inLane
      rw [goOn_lane closed hbefore hafter]
      have goes := (resumed (running _ _ lane) inLane (ih (running _ _ lane) own)).mono
        (Node.idsAll_subset (Context.Fits.lane_child_mem children lane))
      refine advances_goOnLanes plain goes ?_
      rw [children]
      exact idsAll_beside_subset

/-- A ticket that an activity holds is that of something inside it, which goes on by acts on its own
tree. -/
theorem exists_part {context : Context} {live : NodeState} {activity : Activity}
    (h : context.Fits live node activity) (aware : bell.Aware s.context.cancelled)
    (held : bell.ticket ∈ activity.tickets) :
    ∃ part, part.Inside activity ∧ bell.ticket ∈ part.tickets ∧
      Advances engine (Node.idsAll part.node.children) s (goOn engine bell s part) := by
  induction h with
  | calling => exact ⟨_, .self, held, advances_answered s⟩
  | pausing => exact ⟨_, .self, held, advances_rested s aware⟩
  | polling => exact ⟨_, .self, held, advances_poll ..⟩
  | sequence _ _ _ _ _ _ ih =>
    obtain ⟨part, inside, goes⟩ := ih held
    exact ⟨part, .sequence inside, goes⟩
  | branch _ _ _ _ _ ih =>
    obtain ⟨part, inside, goes⟩ := ih held
    exact ⟨part, .branch inside, goes⟩
  | loop _ _ _ _ _ _ ih =>
    obtain ⟨part, inside, goes⟩ := ih held
    exact ⟨part, .loop inside, goes⟩
  | @parallel node spec lanes queue door firstError _ _ children _ _ _ plain entry _ ih =>
    rcases Activity.mem_tickets_parallel.1 held with inLanes | same
    · obtain ⟨lane, member, inLane⟩ := List.mem_flatMap.1 inLanes
      cases lane with
      | ended child slot => cases inLane
      | running child activity =>
        obtain ⟨part, inside, goes⟩ := ih child activity member inLane
        exact ⟨part, .parallel member inside, goes⟩
    · subst same
      obtain ⟨child, rest, rfl⟩ := List.exists_cons_of_ne_nil (entry rfl)
      refine ⟨_, .self, held, ?_⟩
      rw [goOn_door]
      refine advances_enter plain s ?_
      rw [Activity.node, children]
      exact List.Subset.refl _

/-- Whatever goes on heeds a cancellation of which its bell is aware. -/
theorem advances_goOn {context : Context} {live : NodeState} {activity : Activity}
    (h : context.Fits live node activity) (aware : bell.Aware s.context.cancelled)
    (held : bell.ticket ∈ activity.tickets) (distinct : activity.tickets.Nodup) :
    Advances engine (Node.idsAll node.children) s (goOn engine bell s activity) := by
  obtain ⟨part, inside, here, goes⟩ := exists_part h aware held
  exact advances_goOn_of_inside inside here goes h distinct

/-- An activity goes on by acts on its own tree. -/
theorem advances_resume {context : Context} {live : NodeState} {activity : Activity}
    (h : context.Fits live node activity) (aware : bell.Aware s.context.cancelled)
    (held : bell.ticket ∈ activity.tickets) (distinct : activity.tickets.Nodup) :
    Advances engine node.ids s (resume engine bell s activity) := by
  rw [resume_eq held, h.node_eq]
  exact advances_close ((advances_goOn h aware held distinct).mono node.idsAll_children_subset)
    node.mem_ids_self

/-! ## Tickets -/

/-- What is held between other tickets may change to what is newly held. -/
theorem Ticketed.between {before old after new : List Nat} {low high : Nat}
    (h : Ticketed old low high new) (distinct : (before ++ old ++ after).Nodup)
    (given : ∀ ticket ∈ before ++ old ++ after, ticket < low) :
    Ticketed (before ++ old ++ after) low high (before ++ new ++ after) := by
  have known (ticket : Nat) (member : ticket ∈ before ++ new ++ after) :
      ticket ∈ before ++ old ++ after ∨ low ≤ ticket := by
    have := h.known ticket
    simp only [List.mem_append] at member ⊢
    tauto
  refine ⟨h.le, ?_, known, fun ticket member => ?_⟩
  · simp only [List.nodup_append, List.mem_append] at distinct given ⊢
    obtain ⟨⟨hbefore, -, apart⟩, hafter, apart'⟩ := distinct
    -- A new ticket differs from those beside it, which are all given out before.
    have apartNew (ticket : Nat) (member : ticket ∈ new) (other : Nat)
        (beside : other ∈ before ∨ other ∈ after) : other ≠ ticket := by
      rintro rfl
      rcases h.known other member with hold | late
      · rcases beside with beside | beside
        · exact apart other beside other hold rfl
        · exact apart' other (.inr hold) other beside rfl
      · have := given other (beside.imp .inl id)
        omega
    refine ⟨⟨hbefore, h.nodup, fun a ha b hb => apartNew b hb a (.inl ha)⟩, hafter, ?_⟩
    rintro a (ha | ha) b hb
    · exact apart' a (.inl ha) b hb
    · exact (apartNew a ha b (.inr hb)).symm
  · rcases known ticket member with hold | late
    · exact Nat.lt_of_lt_of_le (given ticket hold) h.le
    · simp only [List.mem_append] at member
      rcases member with (member | member) | member
      · exact Nat.lt_of_lt_of_le (given ticket (by simp [member])) h.le
      · exact h.given ticket member
      · exact Nat.lt_of_lt_of_le (given ticket (by simp [member])) h.le

/-- Some of the tickets in hand may be given up. -/
theorem Ticketed.sublist {old tickets fewer : List Nat} {low high : Nat}
    (h : Ticketed old low high tickets) (sub : fewer.Sublist tickets) :
    Ticketed old low high fewer :=
  ⟨h.le, h.nodup.sublist sub, fun ticket member => h.known ticket (sub.subset member),
    fun ticket member => h.given ticket (sub.subset member)⟩

theorem ticketed_andThen {old : List Nat} {low : Nat} {done : List Json} {rest : List Node}
    {p : RunState × Progress} (h : Ticketed old low p.1.world.tickets p.2.tickets) :
    Ticketed old low (andThen engine done rest p).1.world.tickets
      (andThen engine done rest p).2.tickets := by
  obtain ⟨s', progress⟩ := p
  cases progress with
  | waiting current => exact h
  | ended outcome =>
    cases outcome with
    | error fault => exact h
    | ok value =>
      exact (ticketed_startAll (fun n _ => ticketed_start n) (done ++ [value]) s').weaken h.le

theorem ticketed_goOnLoop {old : List Nat} {low : Nat} {spec : LoopSpec} {remaining : Nat}
    {finished : List Json} {p : RunState × Course}
    (h : Ticketed old low p.1.world.tickets p.2.tickets) :
    Ticketed old low (goOnLoop engine node spec remaining finished p).1.world.tickets
      (goOnLoop engine node spec remaining finished p).2.tickets := by
  obtain ⟨s', course⟩ := p
  cases course with
  | waiting done current rest => exact h
  | ended outcome =>
    simp only [goOnLoop]
    split
    · exact h
    · exact (ticketed_rounds (ticketed_startAll (fun n _ => ticketed_start n) []) remaining false _
        s').weaken h.le

theorem flatMap_lanes (before after : List (Lane Activity)) (lane : Lane Activity) :
    (before ++ lane :: after).flatMap Lane.tickets =
      before.flatMap Lane.tickets ++ lane.tickets ++ after.flatMap Lane.tickets := by
  rw [List.flatMap_append, List.flatMap_cons, List.append_assoc]

/-- After a wait in one of its lanes a block holds the tickets of the others, and new ones. -/
theorem ticketed_goOnLanes {spec : ParallelSpec} {limit : Nat} {before after : List (Lane Activity)}
    {child : Node} {queue : List Node} {door : Option Nat} {firstError : Option Fault}
    {old : List Nat} {low : Nat}
    (distinct : (before.flatMap Lane.tickets ++ old ++
      (after.flatMap Lane.tickets ++ door.toList)).Nodup)
    (given : ∀ ticket ∈ before.flatMap Lane.tickets ++ old ++
      (after.flatMap Lane.tickets ++ door.toList), ticket < low) {p : RunState × Progress}
    (h : Ticketed old low p.1.world.tickets p.2.tickets) :
    Ticketed (before.flatMap Lane.tickets ++ old ++ (after.flatMap Lane.tickets ++ door.toList)) low
      (goOnLanes node spec limit queue door firstError
        (laneChange before child after p)).1.world.tickets
      (goOnLanes node spec limit queue door firstError
        (laneChange before child after p)).2.tickets := by
  have held := h.between distinct given
  obtain ⟨s', progress⟩ := p
  cases progress with
  | waiting activity =>
    simp only [laneChange, goOnLanes, Progress.tickets, Activity.tickets_parallel, flatMap_lanes]
    rw [List.append_assoc _ _ door.toList]
    exact held
  | ended outcome =>
    refine ticketed_afterChild child outcome firstError s' (held.sublist ?_)
    rw [Progress.tickets, List.append_nil]
    exact List.Sublist.append_left (List.sublist_append_left _ _) _

/-- After the start of its next child a block holds the tickets of its lanes, and new ones. -/
theorem ticketed_enter {spec : ParallelSpec} {limit : Nat} {lanes : List (Lane Activity)}
    {queue : List Node} {firstError : Option Fault} {old : List Nat} {low : Nat} (s : RunState)
    (held : Ticketed old low s.world.tickets (lanes.flatMap Lane.tickets)) :
    Ticketed old low (enter engine node spec limit lanes firstError s queue).1.world.tickets
      (enter engine node spec limit lanes firstError s queue).2.tickets := by
  cases queue with
  | nil =>
    rw [enter, Progress.tickets, Activity.tickets_parallel, Option.toList_none, List.append_nil]
    exact held
  | cons child rest =>
    have started : Ticketed [] s.world.tickets (start engine s child).1.world.tickets
        (start engine s child).2.tickets := ticketed_start child s
    have first := held.append started
    rw [enter]
    generalize start engine s child = p at first
    obtain ⟨s', progress⟩ := p
    cases progress with
    | waiting activity =>
      apply ticketed_carryOn
      rw [List.flatMap_append, List.flatMap_singleton]
      exact first
    | ended outcome => exact ticketed_afterChild child outcome firstError s' first

/-- An activity that goes on keeps its tickets or gives them up, among them the one that is called,
and takes new ones. -/
theorem ticketed_resume {activity : Activity} (distinct : activity.tickets.Nodup)
    (given : ∀ ticket ∈ activity.tickets, ticket < s.world.tickets) :
    Ticketed (activity.tickets.erase bell.ticket) s.world.tickets
      (resume engine bell s activity).1.world.tickets
      (resume engine bell s activity).2.tickets := by
  have own {old : List Nat} {p : RunState × Progress}
      (h : Ticketed [] s.world.tickets p.1.world.tickets p.2.tickets) :
      Ticketed old s.world.tickets p.1.world.tickets p.2.tickets := h.weaken (Nat.le_refl _)
  have answer {node : Node} {spec : TaskSpec} {call : Call} {left : Nat} {reply : Reply} {due : Nat}
      {limit : Option Nat} : Ticketed [] s.world.tickets
        (answered engine node spec call left reply due limit s).1.world.tickets
        (answered engine node spec call left reply due limit s).2.tickets := by
    unfold answered
    dsimp only
    split
    · exact ticketed_settle (ticketed_attempt node spec call left) s
    · rw [← s.tickets_applyAll reply.effects]
      exact ticketed_settle (ticketed_attempt node spec call left) _
  have rest {node : Node} {spec : TaskSpec} {call : Call} {left : Nat} : Ticketed [] s.world.tickets
      (rested engine node spec call left bell.deaf s).1.world.tickets
      (rested engine node spec call left bell.deaf s).2.tickets := by
    unfold rested
    split
    · exact .nil (Nat.le_refl _)
    · exact ticketed_attempt node spec call left s
  have resumed (current : Activity) (held : bell.ticket ∈ current.tickets)
      (inner : Ticketed (current.tickets.erase bell.ticket) s.world.tickets
        (goOn engine bell s current).1.world.tickets (goOn engine bell s current).2.tickets) :
      Ticketed (current.tickets.erase bell.ticket) s.world.tickets
        (resume engine bell s current).1.world.tickets
        (resume engine bell s current).2.tickets := by
    rw [resume_eq held]
    exact ticketed_close inner
  by_cases held : bell.ticket ∈ activity.tickets
  · refine resumed activity held ?_
    induction activity using Activity.induction with
    | calling => exact own answer
    | pausing => exact own rest
    | polling node spec deadline ticket due => exact own (ticketed_poll node spec deadline s)
    | sequence node done current rest ih =>
      exact ticketed_asSequence (ticketed_andThen (resumed current held (ih distinct given held)))
    | branch node current ih => exact ticketed_asBranch (resumed current held (ih distinct given held))
    | loop node spec remaining finished done current rest ih =>
      exact ticketed_goOnLoop (ticketed_andThen (resumed current held (ih distinct given held)))
    | parallel node spec lanes queue door firstError ih =>
      rcases door_or_lane distinct held with ⟨rfl, apart⟩ |
        ⟨closed, before, child, activity, after, rfl, inside, hbefore, hafter⟩
      · rw [goOn_door]
        rw [Activity.tickets_parallel] at distinct given ⊢
        rw [List.erase_append_right _ apart, Option.toList_some, List.erase_cons_head,
          List.append_nil]
        exact ticketed_enter s ⟨Nat.le_refl _, (List.nodup_append.1 distinct).1,
          fun _ member => .inl member, fun ticket member => given ticket
            (List.mem_append_left _ member)⟩
      · rw [goOn_lane closed hbefore hafter]
        rw [Activity.tickets_parallel] at distinct given ⊢
        have inLane : Lane.running child activity ∈ before ++ .running child activity :: after :=
          List.mem_append_right _ List.mem_cons_self
        have inLanes (ticket : Nat) (member : ticket ∈ activity.tickets) :
            ticket ∈ (before ++ .running child activity :: after).flatMap Lane.tickets :=
          List.mem_flatMap.2 ⟨_, inLane, member⟩
        have split : ((before ++ .running child activity :: after).flatMap Lane.tickets ++
              door.toList).erase bell.ticket =
            before.flatMap Lane.tickets ++ activity.tickets.erase bell.ticket ++
              (after.flatMap Lane.tickets ++ door.toList) := by
          rw [flatMap_lanes, List.append_assoc, List.append_assoc,
            List.erase_append_right _ hbefore, List.append_assoc]
          exact congrArg _ (List.erase_append_left _ inside)
        have left := List.erase_sublist (a := bell.ticket)
          (l := (before ++ .running child activity :: after).flatMap Lane.tickets ++ door.toList)
        rw [split] at left ⊢
        have own := nodup_of_lane (List.nodup_append.1 distinct).1 inLane
        have inner := ih child activity inLane own
          (fun ticket member => given ticket (List.mem_append_left _ (inLanes ticket member))) inside
        exact ticketed_goOnLanes (distinct.sublist left) (fun ticket member =>
          given ticket (left.subset member)) (resumed activity inside inner)
  · rw [resume_of_notMem held, List.erase_of_not_mem held]
    exact ⟨Nat.le_refl _, distinct, fun _ member => .inl member, given⟩

/-! ## States of nodes -/

/-- Steps in turn go on in their place. -/
theorem passed_andThen (done : List Json) {before rest : List Node} {child : Node}
    (past : ∀ n ∈ before, s.context.Done n) (future : ∀ n ∈ rest, s.context.Untouched n)
    (distinct : (Node.idsAll (before ++ child :: rest)).Nodup) {p : RunState × Progress}
    (advance : Advances engine child.ids s p) (placed : p.1.context.Placed child p.2) :
    (andThen engine done rest p).1.context.Passed (before ++ child :: rest)
      (andThen engine done rest p).2 := by
  have apart (n : Node) (member : n ∈ before ++ rest) : n.ids.Disjoint child.ids :=
    fun _ => Node.id_notMem_of_split distinct member
  have past' (n : Node) (member : n ∈ before) : p.1.context.Done n :=
    advance.acts.done (apart n (List.mem_append_left _ member)) (past n member)
  have future' (n : Node) (member : n ∈ rest) : p.1.context.Untouched n :=
    advance.acts.untouched (apart n (List.mem_append_right _ member)) (future n member)
  rw [Node.idsAll_append] at distinct
  have tail := (List.nodup_append.1 distinct).2.1
  have apartRest := Node.disjoint_of_cons tail
  obtain ⟨s', progress⟩ := p
  cases progress with
  | waiting current => exact ⟨before, child, rfl, past', placed, future'⟩
  | ended outcome =>
    cases outcome with
    | error fault => exact .append past' (.failed placed future')
    | ok value =>
      have others : Proceeds engine (Node.idsAll rest) s'
          (startAll engine (done ++ [value]) s' rest) :=
        proceeds_startAll (fun n member s => (advances_start engine n s).mono
          (Node.idsAll_subset member)) _ s' advance.heeds
      have passed := passed_startAll (fun n _ => placed_start engine n) (done ++ [value]) s'
        advance.heeds future' (Node.nodup_of_cons tail).2
      refine .append (fun n member => others.acts.done (fun id hid hrest => ?_) (past' n member))
        (passed.cons (others.acts.done apartRest placed))
      exact List.disjoint_of_nodup_append distinct (Node.idsAll_subset member hid)
        (List.mem_append_right _ hrest)

/-- A loop goes on in its place. -/
theorem worked_goOnLoop {spec : LoopSpec} (kind : node.kind = .loop spec)
    (distinct : (Node.idsAll node.children).Nodup) {remaining : Nat} {finished : List Json}
    {p : RunState × Course} (heeds : Heeds p.1.context.cancelled p.2.outcome?)
    (passed : p.1.context.Passed node.children p.2) :
    (goOnLoop engine node spec remaining finished p).1.context.Worked node
      (goOnLoop engine node spec remaining finished p).2 := by
  obtain ⟨s', course⟩ := p
  cases course with
  | waiting done current rest =>
    obtain ⟨before, child, children, past, present, future⟩ := passed
    exact fun state => .loop kind state children past present future
  | ended outcome =>
    obtain ⟨turn, below⟩ := passed.settled
    have heeds := heeds_afterRound spec finished heeds
    simp only [goOnLoop]
    generalize afterRound spec finished outcome = after at heeds
    cases after with
    | inl outcome => exact .of_children (.of_steps (.inr ⟨spec, kind⟩) turn) below
    | inr finished =>
      refine worked_rounds kind (fun s live untouched => ?_) (fun s live => ?_) remaining false
        finished s' heeds turn below nofun
      · exact passed_startAll (fun n _ => placed_start engine n) [] s live untouched distinct
      · exact (proceeds_startAll (fun n member s => (advances_start engine n s).mono
          (Node.idsAll_subset member)) [] s live).heeds

/-- A block goes on in its place. -/
theorem worked_goOnLanes {spec : ParallelSpec} (kind : node.kind = .parallel spec) {limit : Nat}
    (positive : 0 < limit) {before after : List (Lane Activity)} {child : Node} {queue : List Node}
    {door : Option Nat} {firstError : Option Fault} (plain : PlainError firstError)
    (entry : door.isSome = true → queue ≠ [])
    (children : node.children = before.map Lane.child ++ child :: after.map Lane.child ++ queue)
    (distinct : (Node.idsAll node.children).Nodup)
    (beside : s.context.Beside (before ++ after) queue) {p : RunState × Progress}
    (advance : Advances engine child.ids s p) (placed : p.1.context.Placed child p.2) :
    (goOnLanes node spec limit queue door firstError
      (laneChange before child after p)).1.context.Worked node
      (goOnLanes node spec limit queue door firstError (laneChange before child after p)).2 := by
  have beside : p.1.context.Beside (before ++ after) queue :=
    advance.acts.beside (apart_of_children children distinct) beside
  obtain ⟨s', progress⟩ := p
  cases progress with
  | waiting activity =>
    have stands := children.trans (map_child_lanes before (.running child activity) after queue).symm
    refine worked_parallel kind stands (fun lane member => ?_) beside.waiting plain entry
      (.inr ⟨_, List.mem_append_right _ List.mem_cons_self, rfl⟩)
    rw [List.mem_append, List.mem_cons] at member
    have inLanes := beside.inLanes advance.heeds
    rcases member with member | rfl | member
    · exact inLanes lane (List.mem_append_left _ member)
    · exact placed
    · exact inLanes lane (List.mem_append_right _ member)
  | ended outcome =>
    exact worked_afterChild kind positive plain children beside placed.settled advance.heeds

/-- So does one whose next child starts. -/
theorem worked_enter {spec : ParallelSpec} (kind : node.kind = .parallel spec) {limit : Nat}
    (positive : 0 < limit) {lanes : List (Lane Activity)} {child : Node} {rest : List Node}
    {firstError : Option Fault} (plain : PlainError firstError)
    (children : node.children = lanes.map Lane.child ++ child :: rest)
    (distinct : (Node.idsAll node.children).Nodup)
    (beside : s.context.Beside lanes rest) (untouched : s.context.Untouched child) :
    (enter engine node spec limit lanes firstError s (child :: rest)).1.context.Worked node
      (enter engine node spec limit lanes firstError s (child :: rest)).2 := by
  have around := children_of_front children
  have own : child.ids.Nodup := Node.nodup_ids_of_mem distinct (children ▸ by simp)
  have advance := advances_start engine child s
  have placed := placed_start engine child s untouched own
  have beside : (start engine s child).1.context.Beside (lanes ++ []) rest := by
    refine advance.acts.beside (apart_of_children around distinct) ?_
    rw [List.append_nil]
    exact beside
  rw [enter]
  generalize start engine s child = p at advance placed beside
  obtain ⟨s', progress⟩ := p
  cases progress with
  | waiting activity =>
    have moved := around.trans (map_child_lanes lanes (.running child activity) [] rest).symm
    refine worked_carryOn kind positive _ s' (fun lane member => ?_) beside.waiting moved plain
    rcases List.mem_append.1 member with member | member
    · exact beside.inLanes advance.heeds lane (List.mem_append_left _ member)
    · cases List.mem_singleton.1 member
      exact placed
  | ended outcome =>
    exact worked_afterChild kind positive plain around beside placed.settled advance.heeds

/-- The state of the nodes of a waiting run that have started: they run, unless they have been
cancelled together with the run. -/
def Alive (s : RunState) (live : NodeState) : Prop :=
  live = .running ∨ live = .cancelled ∧ s.context.cancelled = true

theorem alone_answered {spec : TaskSpec} (kind : node.kind = .task spec) {call : Call} {left : Nat}
    {reply : Reply} {due : Nat} {limit : Option Nat} :
    Alone node (answered engine node spec call left reply due limit s).2 := by
  unfold answered
  dsimp only
  split
  · exact alone_settle kind (alone_attempt kind call left) _ _
  · exact alone_settle kind (alone_attempt kind call left) _ _

theorem alone_rested {spec : TaskSpec} (kind : node.kind = .task spec) {call : Call} {left : Nat}
    {deaf : Bool} : Alone node (rested engine node spec call left deaf s).2 := by
  unfold rested
  split
  · exact .ended _
  · exact alone_attempt kind call left s

/-- The top of an activity that goes on runs on unless the run is cancelled. -/
theorem Alive.top {live : NodeState} {activity : Activity} (alive : Alive s live)
    (h : s.context.Fits live node activity) {s' : RunState}
    (acts : Acts engine .heeding (Node.idsAll node.children) s s') (distinct : node.ids.Nodup) :
    s'.context.state node.id = .running ∨
      s'.context.state node.id = .cancelled ∧ s'.context.cancelled = true := by
  have alone := acts.leftAlone (Node.id_notMem_children distinct)
  have state := h.state_eq
  rcases alive with rfl | ⟨rfl, dead⟩
  · exact alone.running_or_cancelled state
  · refine .inr ⟨(alone.keeps ?_).trans state, acts.cancelled dead⟩
    rw [state]
    decide

/-- Whatever goes on stays in its place. -/
theorem worked_goOn {live : NodeState} {activity : Activity}
    (h : s.context.Fits live node activity) (alive : Alive s live)
    (aware : bell.Aware s.context.cancelled) (held : bell.ticket ∈ activity.tickets)
    (own : activity.tickets.Nodup) (distinct : node.ids.Nodup) :
    (goOn engine bell s activity).1.context.Worked node (goOn engine bell s activity).2 := by
  have resumed {child : Node} {current : Activity} (fits : s.context.Fits live child current)
      (held : bell.ticket ∈ current.tickets) (own : current.tickets.Nodup)
      (distinct : child.ids.Nodup)
      (inner : (goOn engine bell s current).1.context.Worked child
        (goOn engine bell s current).2) :
      (resume engine bell s current).1.context.Placed child
        (resume engine bell s current).2 := by
    have advance : Advances engine (Node.idsAll child.children) s (goOn engine bell s current) :=
      advances_goOn fits aware held own
    rw [resume_eq held, fits.node_eq]
    exact placed_close inner (alive.top fits advance.acts distinct) advance.heeds distinct
  have below {node : Node} {s' : RunState} (acts : Acts engine .heeding [] s s')
      (untouched : ∀ child ∈ node.children, s.context.Untouched child) :
      ∀ child ∈ node.children, s'.context.Untouched child := fun child member =>
    acts.untouched (fun _ _ => List.not_mem_nil) (untouched child member)
  induction h with
  | calling kind _ untouched =>
    exact (alone_answered kind).worked (below (advances_answered s).acts untouched)
  | pausing kind _ untouched _ =>
    exact (alone_rested kind).worked (below (advances_rested s aware).acts untouched)
  | polling kind _ untouched =>
    exact (alone_poll kind _ s).worked (below (advances_poll _ _ _ s).acts untouched)
  | @sequence node child done current before rest kind _ children past present future ih =>
    have distinct := Node.nodup_children distinct
    rw [children] at distinct
    have hchild : child.ids.Nodup := Node.nodup_ids_of_mem distinct (by simp)
    have passed := passed_andThen done past future distinct
      (advances_resume present aware held own)
      (resumed present held own hchild (ih held own hchild))
    rw [← children] at passed
    exact worked_asSequence kind passed
  | @branch node child text current before after kind _ children others present ih =>
    have distinct := Node.nodup_children distinct
    rw [children] at distinct
    have hchild : child.ids.Nodup := Node.nodup_ids_of_mem distinct (by simp)
    have advance : Advances engine child.ids s (resume engine bell s current) :=
      advances_resume present aware held own
    refine worked_asBranch kind children (fun n member => ?_)
      (resumed present held own hchild (ih held own hchild))
    exact advance.acts.untouched (fun _ => Node.id_notMem_of_split distinct member) (others n member)
  | @loop node child spec remaining finished done current before rest kind _ children past present
      future ih =>
    have below := Node.nodup_children distinct
    have split := below
    rw [children] at split
    have hchild : child.ids.Nodup := Node.nodup_ids_of_mem split (by simp)
    have advance : Advances engine child.ids s (resume engine bell s current) :=
      advances_resume present aware held own
    have passed := passed_andThen done past future split advance
      (resumed present held own hchild (ih held own hchild))
    rw [← children] at passed
    exact worked_goOnLoop kind below (proceeds_andThen children advance).heeds passed
  | @parallel node spec lanes queue door firstError kind _ children running ended waiting plain entry
      _ ih =>
    have below := Node.nodup_children distinct
    have calm (live' : s.context.cancelled = false) : live = .running :=
      alive.resolve_right fun dead => by
        rw [live'] at dead
        cases dead.2
    have stand : s.context.Beside lanes queue := by
      refine ⟨fun lane member => ?_, fun lane member last => ?_, fun alive' lane member => ?_,
        waiting⟩
      · cases lane with
        | running n activity => exact (running n activity member).ordered
        | ended n slot => exact (ended n slot member).ordered
      · cases lane with
        | running n activity => cases last
        | ended n slot => exact ended n slot member
      · have runs := calm alive'
        subst runs
        cases lane with
        | running n activity => exact running n activity member
        | ended n slot => exact ended n slot member
    rcases door_or_lane own held with ⟨rfl, -⟩ |
      ⟨closed, before, child, activity, after, rfl, inside, hbefore, hafter⟩
    · obtain ⟨child, rest, rfl⟩ := List.exists_cons_of_ne_nil (entry rfl)
      rw [List.forall_mem_cons] at waiting
      rw [goOn_door]
      exact worked_enter kind (laneLimit_pos ..) plain children below
        { stand with waiting := waiting.2 } waiting.1
    · have inLane : Lane.running child activity ∈ before ++ .running child activity :: after :=
        List.mem_append_right _ List.mem_cons_self
      have member : child ∈ node.children := Context.Fits.lane_child_mem children inLane
      have hchild : child.ids.Nodup := Node.nodup_ids_of_mem below member
      have own := nodup_of_lane (Activity.nodup_parallel own).1 inLane
      rw [goOn_lane closed hbefore hafter]
      refine worked_goOnLanes kind (laneLimit_pos ..) plain entry
        (children.trans (map_child_lanes ..)) below ?_
        (advances_resume (running _ _ inLane) aware inside own)
        (resumed (running _ _ inLane) inside own hchild (ih _ _ inLane inside own hchild))
      exact ⟨fun lane beside => stand.ordered lane (mem_lanes_of_beside beside),
        fun lane beside => stand.settled lane (mem_lanes_of_beside beside),
        fun live lane beside => stand.inLanes live lane (mem_lanes_of_beside beside), waiting⟩

/-- An activity that goes on leaves the tree in the states that its progress tells. -/
theorem placed_resume {live : NodeState} {activity : Activity}
    (h : s.context.Fits live node activity) (alive : Alive s live)
    (aware : bell.Aware s.context.cancelled) (held : bell.ticket ∈ activity.tickets)
    (own : activity.tickets.Nodup) (distinct : node.ids.Nodup) :
    (resume engine bell s activity).1.context.Placed node
      (resume engine bell s activity).2 := by
  have advance : Advances engine (Node.idsAll node.children) s (goOn engine bell s activity) :=
    advances_goOn h aware held own
  rw [resume_eq held, h.node_eq]
  exact placed_close (worked_goOn h alive aware held own distinct) (alive.top h advance.acts distinct)
    advance.heeds distinct

end Run

end Stepwise

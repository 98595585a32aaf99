import Stepwise.Proofs.Run.Calls
import Stepwise.Proofs.Run.Throughout

/-!
# Calls after starts

A node for which nothing waits makes no call and waits for nothing before it is told to have
started, whatever else a run does: it need not heed its cancellation, and its nodes may be in any
states (`Leads.heralded`). Within one step the same holds of what is done after a node has ended,
for all the nodes below it (`heralded_around`, `Context.Fits.without`).
-/

namespace Stepwise

/-- No activity inside this one is that of a node of some id. -/
def Activity.Without (id : String) (activity : Activity) : Prop :=
  ∀ part : Activity, part.Inside activity → part.node.id ≠ id

/-- No activity in some lanes is that of a node of some id. -/
def Lane.Without (id : String) (lanes : List (Lane Activity)) : Prop :=
  ∀ child activity, .running child activity ∈ lanes → activity.Without id

/-- What is inside a part of an activity is inside the activity. -/
theorem Activity.Inside.trans {inner part activity : Activity} (first : inner.Inside part)
    (second : part.Inside activity) : inner.Inside activity := by
  induction second with
  | self => exact first
  | sequence _ ih => exact .sequence ih
  | branch _ ih => exact .branch ih
  | loop _ ih => exact .loop ih
  | parallel lane _ ih => exact .parallel lane ih

/-- A part may give way to itself. -/
theorem Activity.Swaps.of_inside {part activity : Activity} (inside : part.Inside activity) :
    part.Swaps part activity activity := by
  induction inside with
  | self => exact .self
  | sequence _ ih => exact .sequence ih
  | branch _ ih => exact .branch ih
  | loop _ ih => exact .loop ih
  | parallel lane _ ih =>
    obtain ⟨before, behind, rfl⟩ := List.append_of_mem lane
    exact .parallel ih

/-- An activity is without a node if it is not that of the node, and none of its parts is. -/
theorem Activity.without_iff {id : String} {activity : Activity} : activity.Without id ↔
    activity.node.id ≠ id ∧ ∀ part ∈ activity.inner, part.Without id := by
  constructor
  · intro h
    refine ⟨h activity .self, fun part member inner inside => ?_⟩
    exact h inner (inside_iff.2 (.inr ⟨part, member, inside⟩))
  · rintro ⟨own, below⟩ part inside
    rcases inside_iff.1 inside with rfl | ⟨current, member, inside⟩
    · exact own
    · exact below current member part inside

/-- In a tree with distinct ids what stands beside a part has no activity of a node in the tree of
that part. -/
theorem Context.Fits.without {context : Context} {live : NodeState} {root : Node}
    {part instead activity after : Activity} {id : String}
    (fits : context.Fits live root activity) (distinct : root.ids.Nodup)
    (swaps : part.Swaps instead activity after) (deep : id ∈ part.node.ids)
    (without : instead.Without id) : after.Without id := by
  have inTree {child : Node} {current : Activity} (present : context.Fits live child current)
      (inside : part.Inside current) : id ∈ child.ids :=
    Node.ids_subset_of_mem_preorder (inside.fits present).1 deep
  -- The node is below each activity around the part, so it is another than theirs.
  have other {node child : Node} (distinct : node.ids.Nodup) (member : child ∈ node.children)
      (below : id ∈ child.ids) : node.id ≠ id := fun same =>
    Node.id_notMem_children distinct (same ▸ Node.idsAll_subset member below)
  have alone {node child : Node} {current next outer : Activity} (distinct : node.ids.Nodup)
      (member : child ∈ node.children) (present : context.Fits live child current)
      (inside : part.Inside current) (below : child.ids.Nodup → next.Without id)
      (own : outer.node = node) (only : outer.inner = [next]) : outer.Without id := by
    refine Activity.without_iff.2
      ⟨own ▸ other distinct member (inTree present inside), fun inner among => ?_⟩
    rw [only] at among
    cases List.mem_singleton.1 among
    exact below (Node.nodup_ids_of_mem (Node.nodup_children distinct) member)
  induction swaps generalizing root with
  | self => exact without
  | sequence inner ih =>
    cases fits with
    | sequence _ _ children _ present =>
      exact alone distinct (by simp [children]) present inner.inside (ih present) rfl rfl
  | branch inner ih =>
    cases fits with
    | branch _ _ children _ present =>
      exact alone distinct (by simp [children]) present inner.inside (ih present) rfl rfl
  | loop inner ih =>
    cases fits with
    | loop _ _ children _ present =>
      exact alone distinct (by simp [children]) present inner.inside (ih present) rfl rfl
  | @parallel node spec before behind queue door firstError child current next inner ih =>
    cases fits with
    | parallel kind state children running =>
      have lane : Lane.running child current ∈ before ++ .running child current :: behind :=
        List.mem_append_right _ List.mem_cons_self
      have member : child ∈ node.children := Context.Fits.lane_child_mem children lane
      have present := running child current lane
      have below := inTree present inner.inside
      have apart := Run.apart_of_children (children.trans (Run.map_child_lanes ..))
        (Node.nodup_children distinct)
      -- What runs in another lane is in a tree without the node.
      have beside {n : Node} {inner : Activity}
          (among : Lane.running n inner ∈ before ++ behind)
          (fits : context.Fits live n inner) : inner.Without id := by
        rintro part inside rfl
        have within : n ∈ (before ++ behind).map Lane.child ++ queue :=
          List.mem_append_left _ (List.mem_map_of_mem among)
        exact apart n within (Node.mem_ids.2 ⟨_, (inside.fits fits).1, rfl⟩) below
      refine Activity.without_iff.2 ⟨other distinct member below, fun among inLanes => ?_⟩
      obtain ⟨n, among'⟩ := Lane.mem_activities.1 inLanes
      rw [List.mem_append, List.mem_cons] at among'
      rcases among' with early | same | late
      · exact beside (List.mem_append_left _ early)
          (running n among (List.mem_append_left _ early))
      · cases same
        exact ih present (Node.nodup_ids_of_mem (Node.nodup_children distinct) member)
      · exact beside (List.mem_append_right _ late)
          (running n among (List.mem_append_right _ (List.mem_cons_of_mem _ late)))

namespace Run

/-- Since some state a node of some id has been told to have started, or it has made no call and
nothing waits for it. -/
def Heralded (id : String) (s₀ s : RunState) (current : Option Activity) : Prop :=
  ∃ events made, s₀.world.Tells s.world events ∧ s.world.calls = s₀.world.calls ++ made ∧
    ((∀ nodeType, .nodeStarted id nodeType ∉ events) →
      (∀ entry ∈ made, entry.caller ≠ id) ∧ ∀ activity ∈ current, activity.Without id)

variable {engine : Engine} {id : String} {s s' s₀ : RunState} {node : Node}
  {current next : Option Activity}

namespace Heralded

/-- Before anything is done nobody has called. -/
theorem refl (id : String) (s : RunState) : Heralded id s s none :=
  ⟨[], [], .of_eq rfl, (List.append_nil _).symm, fun _ => ⟨nofun, nofun⟩⟩

/-- More is told and more calls are made. If the node has not been told to have started before, it
is now, or the calls are those of others. -/
theorem extend (h : Heralded id s₀ s current) {told : List Event} {more : List CallEntry}
    (tells : s.world.Tells s'.world told) (calls : s'.world.calls = s.world.calls ++ more)
    (silent : (∀ activity ∈ current, activity.Without id) →
      (∀ nodeType, .nodeStarted id nodeType ∉ told) →
      (∀ entry ∈ more, entry.caller ≠ id) ∧ ∀ activity ∈ next, activity.Without id) :
    Heralded id s₀ s' next := by
  obtain ⟨events, made, before, own, quiet⟩ := h
  refine ⟨events ++ told, made ++ more, before.trans tells, ?_, fun unstarted => ?_⟩
  · rw [calls, own, List.append_assoc]
  · obtain ⟨others, beside⟩ := quiet fun nodeType member =>
      unstarted nodeType (List.mem_append_left _ member)
    obtain ⟨others', beside'⟩ := silent beside fun nodeType member =>
      unstarted nodeType (List.mem_append_right _ member)
    exact ⟨fun entry member => (List.mem_append.1 member).elim (others entry) (others' entry),
      beside'⟩

/-- What makes no call may tell of anything. -/
theorem step (h : Heralded id s₀ s current) (tells : s.world.TellsNodes s'.world)
    (calls : s'.world.calls = s.world.calls)
    (without : (∀ activity ∈ current, activity.Without id) →
      ∀ activity ∈ next, activity.Without id) : Heralded id s₀ s' next := by
  obtain ⟨told, tells, -⟩ := tells
  exact h.extend tells (calls.trans (List.append_nil _).symm) fun beside _ =>
    ⟨nofun, without beside⟩

/-- What makes no call and tells of nothing. -/
theorem idle (h : Heralded id s₀ s current) (calls : s'.world.calls = s.world.calls)
    (log : s'.world.log = s.world.log) (without : (∀ activity ∈ current, activity.Without id) →
      ∀ activity ∈ next, activity.Without id) : Heralded id s₀ s' next :=
  h.step (.of_eq log) calls without

/-- If something waits for the node, its start has been told, and it does not matter what follows.
-/
theorem trans (h : Heralded id s₀ s current) {manner : Manner} {ids : List String}
    (acts : Acts engine manner ids s s')
    (goes : (∀ activity ∈ current, activity.Without id) → Heralded id s s' next) :
    Heralded id s₀ s' next := by
  by_cases beside : ∀ activity ∈ current, activity.Without id
  · obtain ⟨told, more, tells, calls, silent⟩ := goes beside
    exact h.extend tells calls fun _ => silent
  · obtain ⟨told, tells, -⟩ := acts.tellsNodes
    obtain ⟨more, calls, -⟩ := acts.calls
    exact h.extend tells calls fun others _ => absurd others beside

/-- With nothing that waits there is less to be told. -/
theorem ended (h : Heralded id s₀ s current) : Heralded id s₀ s none :=
  h.idle rfl rfl fun _ => nofun

/-- What waits for something else waits for what is inside it. -/
theorem waiting (h : Heralded id s₀ s current) {activity : Activity}
    (without : (∀ inner ∈ current, inner.Without id) → activity.Without id) :
    Heralded id s₀ s (some activity) :=
  h.idle rfl rfl fun beside _ member => Option.mem_some.1 member ▸ without beside

/-- A call of another node needs no word of this one. -/
theorem place (h : Heralded id s₀ s current) (other : node.id ≠ id) (call : Call) :
    Heralded id s₀ (s.place engine node.id call).2 none := by
  refine h.extend (.of_eq rfl) rfl fun _ _ => ⟨fun entry member => ?_, nofun⟩
  cases List.mem_singleton.1 member
  exact other

theorem applyAll (h : Heralded id s₀ s current) (effects : List Effect) :
    Heralded id s₀ (s.applyAll effects) current :=
  h.idle (s.calls_applyAll effects) (s.log_applyAll effects) fun beside => beside

theorem flush (h : Heralded id s₀ s current) : Heralded id s₀ s.flush current := by
  have settled : Heralded id s₀ { s with world := { s.world with openings := [] } } current :=
    h.idle rfl rfl fun beside => beside
  exact settled.applyAll _

end Heralded

/-- To close a node calls nobody. -/
theorem heralded_close {p : RunState × Progress} (h : Heralded id s₀ p.1 p.2.current?) :
    Heralded id s₀ (close node p).1 (close node p).2.current? := by
  obtain ⟨s', progress⟩ := p
  cases progress with
  | waiting activity => exact h
  | ended outcome =>
    exact h.step (s'.tellsNodes_record _ _) (s'.calls_record _ _)
      fun beside => beside

/-! ## Starting -/

section

variable {spec : TaskSpec} {call : Call} (other : node.id ≠ id)

include other

/-- After an attempt a task calls for itself only. -/
theorem heralded_settle {left : Nat} {again : RunState → RunState × Progress}
    {outcome : Except Fault Json}
    (next : ∀ s, Heralded id s₀ s none → Heralded id s₀ (again s).1 (again s).2.current?)
    (h : Heralded id s₀ s none) :
    Heralded id s₀ (settle engine node spec call left again s outcome).1
      (settle engine node spec call left again s outcome).2.current? := by
  unfold settle
  split
  · exact h
  · cases outcome with
    | ok value => exact h
    | error fault =>
      have retried : Heralded id s₀ (s.retry node.id (attempts spec - left) fault) none :=
        h.step (.emit rfl) rfl fun beside => beside
      dsimp only
      split
      · exact h
      · split
        · exact next _ retried
        · exact retried.idle rfl rfl fun _ _ member =>
            Option.mem_some.1 member ▸ Activity.without_iff.2 ⟨other, nofun⟩

/-- However often a task is called, it calls for itself only. -/
theorem heralded_attempt (left : Nat) : ∀ s : RunState, Heralded id s₀ s none →
    Heralded id s₀ (attempt engine node spec call left s).1
      (attempt engine node spec call left s).2.current? := by
  induction left with
  | zero => exact fun s h => h
  | succ left ih =>
    intro s h
    have placed : Heralded id s₀ (s.place engine node.id call).2 none := h.place other call
    simp only [attempt]
    split
    · exact heralded_settle other ih (placed.applyAll _)
    · split
      · exact heralded_settle other ih (placed.applyAll _)
      · exact placed.idle rfl rfl fun _ _ member => Option.mem_some.1 member ▸
          Activity.without_iff.2 ⟨other, fun _ inside => absurd inside List.not_mem_nil⟩

end

section

variable (other : node.id ≠ id)

include other

theorem heralded_poll (spec : WaitSpec) (deadline : Option Nat) (h : Heralded id s₀ s none) :
    Heralded id s₀ (poll engine node spec deadline s).1
      (poll engine node spec deadline s).2.current? := by
  unfold poll
  split
  · exact h
  · split
    · exact h
    · dsimp only
      split
      · exact h
      · exact h.idle rfl rfl fun _ _ member =>
          Option.mem_some.1 member ▸ Activity.without_iff.2 ⟨other, nofun⟩

/-- What is around one activity that waits is without the node if the inner one is. -/
theorem Heralded.around {inner activity : Activity} (h : Heralded id s₀ s (some inner))
    (node_eq : activity.node = node) (inner_eq : activity.inner = [inner]) :
    Heralded id s₀ s (some activity) := by
  refine h.waiting fun beside => Activity.without_iff.2 ⟨node_eq ▸ other, fun part member => ?_⟩
  rw [inner_eq] at member
  exact List.mem_singleton.1 member ▸ beside inner rfl

theorem heralded_asSequence {p : RunState × Course} (h : Heralded id s₀ p.1 p.2.current?) :
    Heralded id s₀ (asSequence node p).1 (asSequence node p).2.current? := by
  obtain ⟨s', course⟩ := p
  cases course with
  | ended outcome => exact h
  | waiting done current rest => exact Heralded.around other h rfl rfl

theorem heralded_asBranch {p : RunState × Progress} (h : Heralded id s₀ p.1 p.2.current?) :
    Heralded id s₀ (asBranch node p).1 (asBranch node p).2.current? := by
  obtain ⟨s', progress⟩ := p
  cases progress with
  | ended outcome => exact h
  | waiting current => exact Heralded.around other h rfl rfl

/-- The rounds of a loop herald whoever calls in them. -/
theorem heralded_rounds {spec : LoopSpec} {body : RunState → RunState × Course}
    (round : ∀ s, Heralded id s₀ s none → Heralded id s₀ (body s).1 (body s).2.current?)
    (remaining : Nat) : ∀ (first : Bool) (finished : List Json) (s : RunState),
      Heralded id s₀ s none →
        Heralded id s₀ (rounds node spec body remaining first finished s).1
          (rounds node spec body remaining first finished s).2.current? := by
  induction remaining with
  | zero => exact fun _ _ s h => h
  | succ remaining ih =>
    intro first finished s h
    rw [rounds]
    split
    · exact h
    · split
      · exact h
      · have ready : Heralded id s₀ (if first then s else s.rearm node.children) none := by
          cases first with
          | true => exact h
          | false => exact h.idle rfl rfl fun beside => beside
        have done := round _ ready
        generalize body (if first then s else s.rearm node.children) = p at done
        obtain ⟨s', course⟩ := p
        cases course with
        | waiting done' current rest => exact Heralded.around other done rfl rfl
        | ended outcome =>
          dsimp only
          split
          · exact done
          · exact ih false _ s' done

/-- A block is without the node if its lanes are. -/
theorem without_parallel {spec : ParallelSpec} {lanes : List (Lane Activity)} {queue : List Node}
    {door : Option Nat} {firstError : Option Fault} (without : Lane.Without id lanes) :
    (Activity.parallel node spec lanes queue door firstError).Without id := by
  refine Activity.without_iff.2 ⟨other, fun part member => ?_⟩
  obtain ⟨child, lane⟩ := Lane.mem_activities.1 member
  exact without child part lane

variable {spec : ParallelSpec} {limit : Nat}

/-- A block that goes on waits for nobody else. -/
theorem heralded_carryOn {lanes : List (Lane Activity)} (firstError : Option Fault)
    (without : (∀ activity ∈ current, activity.Without id) → Lane.Without id lanes)
    (h : Heralded id s₀ s current) (queue : List Node) :
    Heralded id s₀ (carryOn node spec limit lanes firstError s queue).1
      (carryOn node spec limit lanes firstError s queue).2.current? := by
  have block {queue : List Node} {door : Option Nat}
      (beside : ∀ activity ∈ current, activity.Without id) :
      ∀ activity ∈ some (Activity.parallel node spec lanes queue door firstError),
        activity.Without id :=
    fun _ member => Option.mem_some.1 member ▸ without_parallel other (without beside)
  cases queue with
  | nil =>
    rw [carryOn]
    split
    · exact h.idle rfl rfl block
    · exact h.ended
  | cons child rest =>
    rw [carryOn]
    split
    · exact h.idle rfl rfl block
    · exact h.idle rfl rfl block

theorem heralded_afterChild {before after : List (Lane Activity)} (queue : List Node)
    (firstError : Option Fault) (child : Node) (outcome : Except Fault Json)
    (earlier : Lane.Without id before) (later : Lane.Without id after)
    (h : Heralded id s₀ s none) :
    Heralded id s₀ (afterChild node spec limit queue firstError s before child outcome after).1
      (afterChild node spec limit queue firstError s before child outcome after).2.current? := by
  unfold afterChild
  split
  · refine heralded_carryOn other _ (fun _ => ?_) h queue
    exact Lane.forall_running_append
      (Lane.forall_running_append earlier (Lane.forall_running_ended _ _)) later
  · exact h.step (s.tellsNodes_sweep _) (s.calls_sweep _)
      fun beside => beside

end

section

variable {nodes : List Node}
  (each : ∀ node ∈ nodes, ∀ s, Heralded id s₀ s none →
    Heralded id s₀ (start engine s node).1 (start engine s node).2.current?)

include each

/-- Steps in turn herald whoever calls in them. -/
theorem heralded_startAll (done : List Json) : ∀ s : RunState, Heralded id s₀ s none →
    Heralded id s₀ (startAll engine done s nodes).1
      (startAll engine done s nodes).2.current? := by
  induction nodes generalizing done with
  | nil =>
    intro s h
    rw [startAll]
    exact h
  | cons node rest ih =>
    intro s h
    have first := each node List.mem_cons_self s h
    have ih := ih fun n member => each n (List.mem_cons_of_mem _ member)
    rw [startAll]
    generalize start engine s node = p at first
    obtain ⟨s', progress⟩ := p
    cases progress with
    | waiting current => exact first
    | ended outcome =>
      cases outcome with
      | error fault => exact first
      | ok value => exact ih _ s' first

theorem heralded_startBranch (side : Branch) (h : Heralded id s₀ s none) :
    Heralded id s₀ (startBranch engine side s nodes).1
      (startBranch engine side s nodes).2.current? := by
  rcases startBranch_eq engine side s nodes with idle | ⟨before, child, after, split, started⟩
  · rw [idle]
    exact h
  · rw [started]
    exact each child (by simp [split]) s h

end

/-- A node that starts tells so, and what it starts does. -/
theorem heralded_start (engine : Engine) (node : Node) (s : RunState)
    (h : Heralded id s₀ s none) :
    Heralded id s₀ (start engine s node).1 (start engine s node).2.current? := by
  induction node using Node.induction generalizing s with
  | step node ih =>
    rw [start_eq]
    by_cases dead : s.context.cancelled = true
    · rw [if_pos dead]
      exact h.idle rfl rfl fun beside => beside
    rw [if_neg dead]
    have live : (s.startNode node).context.cancelled = false := eq_false_of_ne_true dead
    refine heralded_close ?_
    by_cases own : node.id = id
    · -- Whatever the node does then, its start has been told.
      have acts := (advances_work node (fun child _ => advances_start engine child)
        (s.startNode node) live).acts
      obtain ⟨told, tells, -⟩ := acts.tellsNodes
      obtain ⟨more, calls, -⟩ := acts.calls
      refine h.extend ((s.world.tells_emit _).trans tells) calls fun _ unstarted => ?_
      exact absurd (own ▸ List.mem_cons_self) (unstarted node.kind.nodeType)
    · have begun : Heralded id s₀ (s.startNode node) none :=
        h.step (.emit rfl) rfl fun beside => beside
      unfold work
      split
      · exact heralded_attempt own _ _ begun
      · exact heralded_asSequence own (heralded_startAll ih [] _ begun)
      · exact heralded_carryOn own none
          (fun _ _ _ member => absurd member List.not_mem_nil) begun _
      · exact heralded_asBranch own (heralded_startBranch ih _ begun)
      · exact heralded_rounds own (heralded_startAll ih []) _ true [] _ begun
      · exact heralded_poll own _ _ begun

/-! ## Going on -/

/-- So do steps that go on after one of them. -/
theorem heralded_andThen {done : List Json} {rest : List Node} {p : RunState × Progress}
    (h : Heralded id s₀ p.1 p.2.current?) :
    Heralded id s₀ (andThen engine done rest p).1 (andThen engine done rest p).2.current? := by
  obtain ⟨s', progress⟩ := p
  cases progress with
  | waiting current => exact h
  | ended outcome =>
    cases outcome with
    | error fault => exact h
    | ok value => exact heralded_startAll (fun n _ => heralded_start engine n) _ s' h

section

variable (other : node.id ≠ id)

include other

theorem heralded_goOnLoop {spec : LoopSpec} {remaining : Nat} {finished : List Json}
    {p : RunState × Course} (h : Heralded id s₀ p.1 p.2.current?) :
    Heralded id s₀ (goOnLoop engine node spec remaining finished p).1
      (goOnLoop engine node spec remaining finished p).2.current? := by
  obtain ⟨s', course⟩ := p
  cases course with
  | waiting done current rest => exact Heralded.around other h rfl rfl
  | ended outcome =>
    simp only [goOnLoop]
    split
    · exact h
    · exact heralded_rounds other (heralded_startAll (fun n _ => heralded_start engine n) []) _ _ _
        s' h

variable {spec : ParallelSpec} {limit : Nat}

/-- So does a block that goes on after a change in one lane. -/
theorem heralded_goOnLanes {before after : List (Lane Activity)} {child : Node} {queue : List Node}
    {door : Option Nat} {firstError : Option Fault} (earlier : Lane.Without id before)
    (later : Lane.Without id after) {p : RunState × Progress}
    (h : Heralded id s₀ p.1 p.2.current?) :
    Heralded id s₀
      (goOnLanes node spec limit queue door firstError (laneChange before child after p)).1
      (goOnLanes node spec limit queue door firstError
        (laneChange before child after p)).2.current? := by
  obtain ⟨s', progress⟩ := p
  cases progress with
  | waiting current =>
    refine Heralded.waiting h fun beside => without_parallel other ?_
    rw [← List.singleton_append]
    exact Lane.forall_running_append earlier
      (Lane.forall_running_append (Lane.forall_running_singleton (beside current rfl)) later)
  | ended outcome => exact heralded_afterChild other _ _ _ _ earlier later h

/-- A child that starts in its turn heralds whoever calls in it. -/
theorem heralded_enter {lanes : List (Lane Activity)} (firstError : Option Fault)
    (without : Lane.Without id lanes) (h : Heralded id s₀ s none) (queue : List Node) :
    Heralded id s₀ (enter engine node spec limit lanes firstError s queue).1
      (enter engine node spec limit lanes firstError s queue).2.current? := by
  cases queue with
  | nil => exact h.waiting fun _ => without_parallel other without
  | cons child rest =>
    have first := heralded_start engine child s h
    rw [enter]
    generalize start engine s child = p at first
    obtain ⟨s', progress⟩ := p
    cases progress with
    | waiting activity =>
      exact heralded_carryOn other _ (fun beside => Lane.forall_running_append without
        (Lane.forall_running_singleton (beside activity rfl))) first rest
    | ended outcome =>
      exact heralded_afterChild other _ _ _ _ without
        (fun _ _ member => absurd member List.not_mem_nil) first

end

section

variable {bell : Bell} {part instead activity after : Activity}

/-- The end of an own wait of another node leads to no call of the node. -/
theorem heralded_own (holds : part.Holds bell.ticket) (without : part.Without id)
    (h : Heralded id s₀ s none) :
    Heralded id s₀ (resume engine bell s part).1 (resume engine bell s part).2.current? := by
  obtain ⟨other, beside⟩ := Activity.without_iff.1 without
  cases holds with
  | calling =>
    rw [resume, if_pos rfl]
    refine heralded_close ?_
    unfold answered
    dsimp only
    split
    · exact heralded_settle other (heralded_attempt other _) h
    · exact heralded_settle other (heralded_attempt other _) (h.applyAll _)
  | pausing =>
    rw [resume, if_pos rfl]
    refine heralded_close ?_
    unfold rested
    split
    · exact h
    · exact heralded_attempt other _ s h
  | polling =>
    rw [resume, if_pos rfl]
    exact heralded_close (heralded_poll other _ _ h)
  | turn =>
    rw [resume, if_pos rfl]
    refine heralded_close (heralded_enter other _ (fun child inner lane => ?_) h _)
    exact beside inner (Lane.mem_activities.2 ⟨child, lane⟩)

/-- What follows around a part that goes on leads to no call of a node for which nothing waits
beside it. -/
theorem heralded_around (swaps : part.Swaps instead activity after) (without : after.Without id)
    (held : bell.ticket ∈ part.tickets) (own : activity.tickets.Nodup)
    (h : Heralded id s₀ (resume engine bell s part).1 (resume engine bell s part).2.current?) :
    Heralded id s₀ (resume engine bell s activity).1
      (resume engine bell s activity).2.current? := by
  induction swaps with
  | self => exact h
  | sequence _ ih =>
    obtain ⟨other, beside⟩ := Activity.without_iff.1 without
    rw [resume]
    exact heralded_close (heralded_asSequence other
      (heralded_andThen (ih (beside _ List.mem_cons_self) own)))
  | branch _ ih =>
    obtain ⟨other, beside⟩ := Activity.without_iff.1 without
    rw [resume]
    exact heralded_close (heralded_asBranch other (ih (beside _ List.mem_cons_self) own))
  | loop _ ih =>
    obtain ⟨other, beside⟩ := Activity.without_iff.1 without
    rw [resume]
    exact heralded_close (heralded_goOnLoop other
      (heralded_andThen (ih (beside _ List.mem_cons_self) own)))
  | @parallel node spec before behind queue door firstError child current _ inner ih =>
    obtain ⟨other, beside⟩ := Activity.without_iff.1 without
    have lanes (n : Node) (a : Activity)
        (lane : .running n a ∈ before ++ .running child _ :: behind) : a.Without id :=
          beside a (Lane.mem_activities.2 ⟨n, lane⟩)
    obtain ⟨distinct, apart⟩ := Activity.nodup_parallel own
    have inLane : bell.ticket ∈ (Lane.running child current).tickets :=
      inner.inside.tickets_subset held
    have inLanes : Lane.running child current ∈ before ++ .running child current :: behind :=
      List.mem_append_right _ List.mem_cons_self
    obtain ⟨hbefore, hbehind⟩ := notMem_lanes_beside distinct inLane
    have closed := apart bell.ticket (List.mem_flatMap.2 ⟨_, inLanes, inLane⟩)
    rw [resume_lane closed hbefore hbehind]
    refine heralded_close (heralded_goOnLanes other
      (fun n a lane => lanes n a (List.mem_append_left _ lane))
      (fun n a lane => lanes n a (List.mem_append_right _ (List.mem_cons_of_mem _ lane))) ?_)
    exact ih (lanes child _ (List.mem_append_right _ List.mem_cons_self))
      (nodup_of_lane distinct inLanes)

end

/-! ## Runs -/

/-- What a run waits for. -/
def Stage.current? : Stage → Option Activity
  | .active activity _ => some activity
  | .ended _ => none

/-- At the end of a step nobody calls. -/
theorem heralded_ofProgress (limit : Option TimeLimit) {p : RunState × Progress}
    (h : Heralded id s₀ p.1 p.2.current?) :
    Heralded id s₀ (ofProgress limit p).1 (ofProgress limit p).2.current? := by
  obtain ⟨s', progress⟩ := p
  cases progress with
  | waiting activity => exact h.flush
  | ended outcome => exact h

variable {root : Node} {activity : Activity}

/-- Whatever goes on makes no call in the name of a node for which nothing waits. -/
theorem heralded_resume {context : Context} {live : NodeState}
    (fits : context.Fits live root activity) (own : activity.tickets.Nodup) (bell : Bell)
    (without : activity.Without id) (h : Heralded id s₀ s none) :
    Heralded id s₀ (resume engine bell s activity).1
      (resume engine bell s activity).2.current? := by
  by_cases held : bell.ticket ∈ activity.tickets
  · obtain ⟨part, inside, holds⟩ := fits.exists_holds held
    have here : part.Without id := fun inner below => without inner (below.trans inside)
    exact heralded_around (.of_inside inside) without holds.held own (heralded_own holds here h)
  · rw [resume_of_notMem held]
    exact h.waiting fun _ => without

/-- One step of a run, of any kind and in any state of its nodes. -/
theorem heralded_step {stage : Stage} (sound : Sound root s stage) (stimulus : Stimulus)
    (h : Heralded id s₀ s stage.current?) :
    Heralded id s₀ (step engine s stage stimulus).1
      (step engine s stage stimulus).2.current? := by
  have acts : Acts engine .deaf root.ids s (step engine s stage stimulus).1 :=
    acts_step_deaf sound stimulus
  refine h.trans acts fun beside => ?_
  have fresh : Heralded id s s none := .refl id s
  cases sound with
  | ended => exact fresh
  | @active activity limit live fits alive own given =>
    have without : activity.Without id := beside activity rfl
    have waits : Heralded id s s (some activity) := fresh.waiting fun _ => without
    have goes (bell : Bell) :
        Heralded id s (ofProgress limit (resume engine bell s activity)).1
          (ofProgress limit (resume engine bell s activity)).2.current? :=
      heralded_ofProgress limit (heralded_resume fits own bell without fresh)
    cases stimulus with
    | wake bell => exact goes bell
    | heed =>
      simp only [step, heed]
      split
      · exact goes _
      · exact waits
    | expire =>
      cases limit with
      | none => exact waits
      | some limit => exact fresh.idle rfl rfl fun beside => beside
    | act effects => exact waits.applyAll effects

/-- However a run goes on, a node for which nothing waits makes no call until it is told to have
started. -/
theorem Leads.heralded {manner : Manner} {p q : RunState × Stage} (leads : Leads engine manner p q)
    (sound : Sound root p.1 p.2) (distinct : root.ids.Nodup)
    (h : Heralded id s₀ p.1 p.2.current?) : Heralded id s₀ q.1 q.2.current? := by
  induction leads with
  | refl => exact h
  | tail before move ih =>
    have sound := Leads.sound before sound distinct
    cases move with
    | step s stage time stimulus =>
      have later : Heralded id s₀ (later s time) stage.current? :=
        Heralded.idle ih rfl rfl fun beside => beside
      exact heralded_step (sound.later time) stimulus later

end Run

end Stepwise

import Stepwise.Proofs.Run.Collect
import Stepwise.Proofs.Run.Results

/-!
# Results of blocks

A block that completes is given its value by what runs it, and each of its children has recorded a
value of its own. The two agree in every state that a run reaches, for whatever part of the tree
has completed, however often a loop has run it before: `block_results`.
-/

namespace Stepwise

theorem Context.Holds.node_eq {context : Context} {node : Node} {activity : Activity}
    (h : context.Holds node activity) : activity.node = node := by
  cases h <;> rfl

/-- An activity goes on holding values if the part of it does that gives way. -/
theorem Context.Holds.swaps {context : Context} {node : Node} {part next activity after : Activity}
    (h : context.Holds node activity) (swaps : part.Swaps next activity after)
    (here : ∀ node, context.Holds node part → context.Holds node next) :
    context.Holds node after := by
  induction swaps generalizing node with
  | self => exact here node h
  | sequence _ ih =>
    cases h with
    | sequence children past present => exact .sequence children past (ih present)
  | branch _ ih =>
    cases h with
    | branch member present => exact .branch member (ih present)
  | loop _ ih =>
    cases h with
    | loop children past present => exact .loop children past (ih present)
  | @parallel block spec before behind queue door firstError child current next _ ih =>
    cases h with
    | parallel children running ended =>
      have inner := ih (running child current (List.mem_append_right _ List.mem_cons_self))
      refine .parallel ?_ (fun n activity member => ?_) fun n slot member => ?_
      · rw [children, List.map_append, List.map_append, List.map_cons, List.map_cons]
        rfl
      · rcases Activity.Swaps.lane_cases member with same | old
        · cases same
          exact inner
        · exact running n activity old
      · rcases Activity.Swaps.lane_cases member with same | old
        · cases same
        · exact ended n slot old

namespace Run

variable {engine : Engine} {bell : Bell} {s : RunState} {node root : Node}

/-! ## Going on -/

/-- Steps of which one goes on collect their values, with those that are started after it. -/
theorem collected_goOn {done : List Json} {nodes before rest : List Node} {child : Node}
    (children : nodes = before ++ child :: rest) (tallied : ∀ n ∈ nodes, s.context.Tallied n)
    (past : List.Forall₂ s.context.Yields before done)
    (future : ∀ n ∈ rest, s.context.Untouched n) (distinct : (Node.idsAll nodes).Nodup)
    {p : RunState × Progress} (advance : Advances engine child.ids s p)
    (valued : p.1.context.Valued child p.2) :
    (andThen engine done rest p).1.context.Collected nodes (andThen engine done rest p).2 := by
  subst children
  refine collected_andThen (fun n member => tallied n (List.mem_append_left _ member)) past future
    distinct advance valued fun value s' live untouched tallied past => ?_
  exact collected_startAll (fun n _ => valued_start engine n) _ live untouched tallied
    (List.append_cons .. ▸ distinct) past

/-- A loop that goes on has the values of its body among the results. -/
theorem composed_goOnLoop {spec : LoopSpec} (kind : node.kind = .loop spec)
    (distinct : (Node.idsAll node.children).Nodup) {remaining : Nat} {finished : List Json}
    {p : RunState × Course} (heeds : Heeds p.1.context.cancelled p.2.outcome?)
    (collected : p.1.context.Collected node.children p.2) :
    (goOnLoop engine node spec remaining finished p).1.context.Composed node
      (goOnLoop engine node spec remaining finished p).2 := by
  obtain ⟨s', course⟩ := p
  cases course with
  | waiting done current rest =>
    obtain ⟨before, child, children, past, present⟩ := collected.lists
    exact ⟨collected.tallied, .loop children past present⟩
  | ended outcome =>
    have heeds := heeds_afterRound spec finished heeds
    simp only [goOnLoop]
    generalize afterRound spec finished outcome = after at heeds
    cases after with
    | inl outcome =>
      refine ⟨collected.tallied, ?_⟩
      cases outcome with
      | ok value => exact .of_loop kind value
      | error fault => trivial
    | inr finished =>
      refine composed_rounds kind (fun s live untouched => ?_) (fun s live => ?_) remaining false
        finished s' heeds collected.tallied fun first => absurd first Bool.false_ne_true
      · exact collected_startAll (fun n _ => valued_start engine n) [] live untouched
          (fun _ member => absurd member List.not_mem_nil) distinct .nil
      · exact (proceeds_startAll (fun n member s => (advances_start engine n s).mono
          (Node.idsAll_subset member)) [] s live).heeds

section

variable {before after : List (Lane Activity)} {child : Node} {queue : List Node}
  (children : node.children = before.map Lane.child ++ child :: after.map Lane.child ++ queue)
  (distinct : (Node.idsAll node.children).Nodup)
  (lined : ∀ lane ∈ before ++ after, s.context.Lined lane)
  (waiting : ∀ n ∈ queue, s.context.Untouched n)

include children distinct lined waiting

/-- What a child does leaves the rest of its block as it is. -/
theorem beside_kept {p : RunState × Progress} (advance : Advances engine child.ids s p) :
    (∀ lane ∈ before ++ after, p.1.context.Lined lane) ∧ ∀ n ∈ queue, p.1.context.Untouched n := by
  have apart := apart_of_children children distinct
  refine ⟨fun lane member => ?_, fun n member => ?_⟩
  · exact advance.acts.lined (apart _ (List.mem_append_left _ (List.mem_map_of_mem member)))
      (lined lane member)
  · exact advance.acts.untouched (apart n (List.mem_append_right _ member)) (waiting n member)

/-- A block that goes on has the values of its lanes among the results. -/
theorem composed_goOnLanes {spec : ParallelSpec} (kind : node.kind = .parallel spec) {limit : Nat}
    {door : Option Nat} {firstError : Option Fault} {p : RunState × Progress}
    (advance : Advances engine child.ids s p) (valued : p.1.context.Valued child p.2) :
    (goOnLanes node spec limit queue door firstError
      (laneChange before child after p)).1.context.Composed node
      (goOnLanes node spec limit queue door firstError (laneChange before child after p)).2 := by
  obtain ⟨lined, waiting⟩ := beside_kept children distinct lined waiting advance
  obtain ⟨s', progress⟩ := p
  cases progress with
  | waiting activity =>
    have stands := children.trans (map_child_lanes before (.running child activity) after queue).symm
    refine composed_parallel stands (fun lane member => ?_) waiting
    rw [List.mem_append, List.mem_cons, or_left_comm, ← List.mem_append] at member
    rcases member with rfl | member
    · exact ⟨valued.tallied, valued.agrees⟩
    · exact lined lane member
  | ended outcome => exact composed_afterChild kind firstError children lined waiting valued

end

/-- So has a block whose next child has started. -/
theorem composed_enter {spec : ParallelSpec} (kind : node.kind = .parallel spec) {limit : Nat}
    {lanes : List (Lane Activity)} {child : Node} {rest : List Node} {firstError : Option Fault}
    (children : node.children = lanes.map Lane.child ++ child :: rest)
    (distinct : (Node.idsAll node.children).Nodup)
    (lined : ∀ lane ∈ lanes, s.context.Lined lane)
    (waiting : ∀ n ∈ child :: rest, s.context.Untouched n) :
    (enter engine node spec limit lanes firstError s (child :: rest)).1.context.Composed node
      (enter engine node spec limit lanes firstError s (child :: rest)).2 := by
  have around := children_of_front children
  have own : child.ids.Nodup := Node.nodup_ids_of_mem distinct (children ▸ by simp)
  rw [List.forall_mem_cons] at waiting
  rw [← List.append_nil lanes] at lined
  obtain ⟨lined, idle⟩ :=
    beside_kept around distinct lined waiting.2 (advances_start engine child s)
  have valued := valued_start engine child s waiting.1 own
  rw [enter]
  generalize start engine s child = p at lined idle valued
  obtain ⟨s', progress⟩ := p
  cases progress with
  | waiting activity =>
    have moved := around.trans (map_child_lanes lanes (.running child activity) [] rest).symm
    refine composed_carryOn kind _ _ s' (fun lane member => ?_) idle moved
    rcases List.mem_append.1 member with member | member
    · exact lined lane (List.mem_append_left _ member)
    · cases List.mem_singleton.1 member
      exact ⟨valued.tallied, valued.agrees⟩
  | ended outcome => exact composed_afterChild kind firstError around lined idle valued

/-- An activity comes to values that are put together from those of its children. -/
theorem composed_goOn {live : NodeState} {activity : Activity}
    (h : s.context.Fits live node activity) (alive : Alive s live)
    (aware : bell.Aware s.context.cancelled) (tallied : s.context.Tallied node)
    (holds : s.context.Holds node activity)
    (held : bell.ticket ∈ activity.tickets) (own : activity.tickets.Nodup)
    (distinct : node.ids.Nodup) :
    (goOn engine bell s activity).1.context.Composed node
      (goOn engine bell s activity).2 := by
  have resumed {child : Node} {current : Activity} (fits : s.context.Fits live child current)
      (held : bell.ticket ∈ current.tickets) (own : current.tickets.Nodup)
      (distinct : child.ids.Nodup)
      (inner : (goOn engine bell s current).1.context.Composed child
        (goOn engine bell s current).2) :
      (resume engine bell s current).1.context.Valued child
        (resume engine bell s current).2 := by
    have advance : Advances engine (Node.idsAll child.children) s (goOn engine bell s current) :=
      advances_goOn fits aware held own
    rw [resume_eq held, fits.node_eq]
    exact valued_close inner (alive.top fits advance.acts distinct) advance.heeds distinct
  have below {node : Node} {s' : RunState} (acts : Acts engine .heeding [] s s')
      (tallied : s.context.Tallied node) : ∀ child ∈ node.children, s'.context.Tallied child :=
    fun child member => acts.tallied (fun _ _ => List.not_mem_nil)
      ((Context.tallied_iff.1 tallied).2 child member)
  induction h with
  | calling kind _ _ =>
    exact (alone_answered kind).composed (.inl ⟨_, kind⟩) (below (advances_answered s).acts tallied)
  | pausing kind _ _ _ =>
    exact (alone_rested kind).composed (.inl ⟨_, kind⟩) (below (advances_rested s aware).acts tallied)
  | polling kind _ _ =>
    exact (alone_poll kind _ s).composed (.inr ⟨_, kind⟩)
      (below (advances_poll _ _ _ s).acts tallied)
  | @sequence node child done current before rest kind _ children _ present future ih =>
    cases holds with
    | @sequence _ other _ _ earlier _ split past holds =>
      cases present.node_eq.symm.trans holds.node_eq
      cases List.append_cancel_right (children.symm.trans split)
      have tallied := (Context.tallied_iff.1 tallied).2
      have below := Node.nodup_children distinct
      have member : child ∈ node.children := by simp [children]
      have hchild : child.ids.Nodup := Node.nodup_ids_of_mem below member
      exact composed_asSequence kind (collected_goOn children tallied past future below
        (advances_resume present aware held own)
        (resumed present held own hchild (ih (tallied child member) holds held own hchild)))
  | @branch node child text current before after kind _ children others present ih =>
    cases holds with
    | @branch _ other _ member holds =>
      cases present.node_eq.symm.trans holds.node_eq
      have hchild : child.ids.Nodup := Node.nodup_ids_of_mem (Node.nodup_children distinct) member
      have advance : Advances engine child.ids s (resume engine bell s current) :=
        advances_resume present aware held own
      have inner := ih ((Context.tallied_iff.1 tallied).2 child member) holds held own hchild
      refine composed_asBranch kind children (fun n inside => ?_)
        (resumed present held own hchild inner)
      have split := Node.nodup_children distinct
      rw [children] at split
      exact advance.acts.untouched (fun _ => Node.id_notMem_of_split split inside) (others n inside)
  | @loop node child spec remaining finished done current before rest kind _ children _ present
      future ih =>
    cases holds with
    | @loop _ other _ _ _ _ _ earlier _ split past holds =>
      cases present.node_eq.symm.trans holds.node_eq
      cases List.append_cancel_right (children.symm.trans split)
      have tallied := (Context.tallied_iff.1 tallied).2
      have below := Node.nodup_children distinct
      have member : child ∈ node.children := by simp [children]
      have hchild : child.ids.Nodup := Node.nodup_ids_of_mem below member
      have advance : Advances engine child.ids s (resume engine bell s current) :=
        advances_resume present aware held own
      exact composed_goOnLoop kind below (proceeds_andThen children advance).heeds
        (collected_goOn children tallied past future below advance
          (resumed present held own hchild (ih (tallied child member) holds held own hchild)))
  | @parallel node spec lanes queue door firstError kind _ children running _ waiting _ entry _ ih =>
    cases holds with
    | parallel _ collected filled =>
      have tallied := (Context.tallied_iff.1 tallied).2
      have below := Node.nodup_children distinct
      have lined (lane : Lane Activity) (member : lane ∈ lanes) : s.context.Lined lane := by
        refine ⟨tallied _ (Context.Fits.lane_child_mem children member), ?_⟩
        cases lane with
        | running n activity => exact collected n activity member
        | ended n slot => exact filled n slot member
      rcases door_or_lane own held with ⟨rfl, -⟩ |
        ⟨closed, before, child, activity, after, rfl, inside, hbefore, hafter⟩
      · obtain ⟨child, rest, rfl⟩ := List.exists_cons_of_ne_nil (entry rfl)
        rw [goOn_door]
        exact composed_enter kind children below lined waiting
      · have inLane : Lane.running child activity ∈ before ++ .running child activity :: after :=
          List.mem_append_right _ List.mem_cons_self
        have member : child ∈ node.children := Context.Fits.lane_child_mem children inLane
        have hchild : child.ids.Nodup := Node.nodup_ids_of_mem below member
        have own := nodup_of_lane (Activity.nodup_parallel own).1 inLane
        have inner := ih _ _ inLane (tallied child member) (collected _ _ inLane) inside own hchild
        rw [goOn_lane closed hbefore hafter]
        exact composed_goOnLanes (children.trans (map_child_lanes ..)) below
          (fun lane beside => lined lane (mem_lanes_of_beside beside)) waiting kind
          (advances_resume (running _ _ inLane) aware inside own)
          (resumed (running _ _ inLane) inside own hchild inner)

/-- Whatever goes on in a tree, the values of its composite nodes agree with the results. -/
theorem valued_resume {live : NodeState} {activity : Activity}
    (h : s.context.Fits live node activity) (alive : Alive s live)
    (aware : bell.Aware s.context.cancelled) (tallied : s.context.Tallied node)
    (holds : s.context.Holds node activity)
    (held : bell.ticket ∈ activity.tickets) (own : activity.tickets.Nodup)
    (distinct : node.ids.Nodup) :
    (resume engine bell s activity).1.context.Valued node
      (resume engine bell s activity).2 := by
  have advance : Advances engine (Node.idsAll node.children) s (goOn engine bell s activity) :=
    advances_goOn h aware held own
  rw [resume_eq held, h.node_eq]
  exact valued_close (composed_goOn h alive aware tallied holds held own distinct)
    (alive.top h advance.acts distinct) advance.heeds distinct

/-! ## Schedules -/

/-- A stage of the run of a tree, with the values of its nodes in agreement. -/
structure Agreed (root : Node) (s : RunState) (stage : Stage) : Prop where
  tallied : s.context.Tallied root
  holds : ∀ activity limit, stage = .active activity limit → s.context.Holds root activity

/-- What an answer or somebody outside does leaves the values in agreement. -/
theorem Agreed.applyAll {stage : Stage} (h : Agreed root s stage) (effects : List Effect) :
    Agreed root (s.applyAll effects) stage := by
  have alone := Act.leftAlone_applyAll s effects
  refine ⟨h.tallied.keep fun id _ => (alone id).steady, fun activity limit waits => ?_⟩
  exact (h.holds activity limit waits).keep fun id _ => (alone id).phase_eq

theorem agreed_waiting {limit : Option TimeLimit} {activity : Activity}
    (tallied : s.context.Tallied root) (holds : s.context.Holds root activity) :
    Agreed root s (.active activity limit) := by
  refine ⟨tallied, fun other bound same => ?_⟩
  cases same
  exact holds

/-- A step that ends with agreeing values leaves a stage that agrees. -/
theorem agreed_ofProgress {limit : Option TimeLimit} {p : RunState × Progress}
    (h : p.1.context.Valued root p.2) :
    Agreed root (ofProgress limit p).1 (ofProgress limit p).2 := by
  obtain ⟨s, progress⟩ := p
  cases progress with
  | ended outcome => exact ⟨h.tallied, nofun⟩
  | waiting activity =>
    let settled : RunState := { s with world := { s.world with openings := [] } }
    have agreed : Agreed root settled (.active activity limit) := agreed_waiting h.tallied h.agrees
    exact agreed.applyAll s.world.openings

theorem agreed_expire {limit : TimeLimit} (tallied : s.context.Tallied root) :
    Agreed root (expire limit s).1 (expire limit s).2 :=
  ⟨tallied.keep fun id _ => .of_halted (s.phase_cancelExecution id), nofun⟩

/-- A run that is launched agrees with the results. -/
theorem agreed_launch {limit : Option Duration} (untouched : s.context.Untouched root)
    (distinct : root.ids.Nodup) :
    Agreed root (launch engine root limit s).1 (launch engine root limit s).2 :=
  agreed_ofProgress (valued_start engine root s untouched distinct)

section

variable {limit : Option TimeLimit} {live : NodeState} {activity : Activity}
  (fits : s.context.Fits live root activity) (alive : Alive s live) (own : activity.tickets.Nodup)
  (tallied : s.context.Tallied root) (holds : s.context.Holds root activity)
  (distinct : root.ids.Nodup)

include fits alive own tallied holds distinct

theorem agreed_resume_of_aware {bell : Bell} (aware : bell.Aware s.context.cancelled) :
    Agreed root (ofProgress limit (resume engine bell s activity)).1
      (ofProgress limit (resume engine bell s activity)).2 := by
  by_cases held : bell.ticket ∈ activity.tickets
  · exact agreed_ofProgress (valued_resume fits alive aware tallied holds held own distinct)
  · rw [resume_of_notMem held]
    exact agreed_ofProgress ⟨tallied, holds⟩

/-- A run agrees with the results after any wait. -/
theorem agreed_resume (bell : Bell) :
    Agreed root (ofProgress limit (resume engine bell s activity)).1
      (ofProgress limit (resume engine bell s activity)).2 := by
  by_cases aware : bell.Aware s.context.cancelled
  · exact agreed_resume_of_aware fits alive own tallied holds distinct aware
  · obtain ⟨ticket, deaf⟩ := bell
    obtain ⟨dead, deafness⟩ := Bell.not_aware aware
    subst deafness
    have unheard := unheard_resume engine ticket fits own dead
    generalize resume engine ⟨ticket, true⟩ s activity = p at unheard
    cases unheard with
    | same =>
      exact agreed_resume_of_aware fits alive own tallied holds distinct fun _ => rfl
    | @atOnce node spec call left due effects inside =>
      have placed : (s.place engine node.id call).2.context.Fits live root activity := fits
      obtain ⟨live', fits', alive'⟩ := fits_applyAll placed alive effects
      have agreed : Agreed root (s.place engine node.id call).2 (.active activity limit) :=
        agreed_waiting tallied holds
      have after := agreed.applyAll effects
      exact agreed_resume_of_aware fits' alive' own after.tallied (after.holds activity limit rfl)
        distinct fun _ => rfl
    | @later node spec call left due bound after swaps =>
      refine agreed_ofProgress ⟨tallied, holds.swaps swaps fun node inner => ?_⟩
      cases inner with
      | pausing => exact .calling

end

/-- No step of a run makes the values of its nodes disagree with the results. -/
theorem agreed_step {stage : Stage} (h : Agreed root s stage) (sound : Sound root s stage)
    (distinct : root.ids.Nodup) (stimulus : Stimulus) :
    Agreed root (step engine s stage stimulus).1 (step engine s stage stimulus).2 := by
  cases sound with
  | ended => exact h
  | @active activity limit live fits alive own given =>
    have holds := h.holds activity limit rfl
    cases stimulus with
    | wake bell => exact agreed_resume fits alive own h.tallied holds distinct bell
    | heed =>
      simp only [step, heed]
      split
      · exact agreed_resume fits alive own h.tallied holds distinct _
      · exact h
    | expire =>
      cases limit with
      | none => exact h
      | some limit => exact agreed_expire h.tallied
    | act effects => exact h.applyAll effects

/-- In every state that a run reaches the values of its nodes are in agreement. -/
theorem Reaches.agreed {limit : Option Duration} {s₀ : RunState} {p : RunState × Stage}
    (h : Reaches engine root limit s₀ p) (untouched : s₀.context.Untouched root)
    (distinct : root.ids.Nodup) : Agreed root p.1 p.2 := by
  induction h with
  | refl => exact agreed_launch untouched distinct
  | tail reached move ih =>
    have sound := Reaches.sound reached untouched distinct
    cases move with
    | step s stage time stimulus =>
      have agreed : Agreed root (later s time) stage := ⟨ih.tallied, ih.holds⟩
      exact agreed_step agreed (sound.later time) distinct stimulus

/-! ## Results -/

/-- In every state that a run reaches, a sequence that has completed has as its result the list of
the results of all its children; a completed parallel block that waits for all has the list of the
results of all its children, each completed or failed; and a completed condition has the result of
the one child that has begun, or null if none has. -/
theorem block_results (engine : Engine) (root : Node) (limit : Option Duration) (s₀ : RunState)
    (distinct : root.ids.Nodup) (nodes : s₀.context.nodes = []) (results : s₀.context.results = [])
    {p : RunState × Stage} (h : Reaches engine root limit s₀ p) {n : Node}
    (inside : n ∈ root.preorder)
    (completed : p.1.context.state n.id = .completed) :
    (n.kind = .sequence → ∃ values, p.1.context.results.find? n.id = some (.arr values) ∧
      List.Forall₂ (fun child value => p.1.context.state child.id = .completed ∧
        p.1.context.results.find? child.id = some value) n.children values) ∧
    (∀ spec, n.kind = .parallel spec → spec.waitForAll = true →
      ∃ values, p.1.context.results.find? n.id = some (.arr values) ∧
        List.Forall₂ (fun child value => p.1.context.results.find? child.id = some value ∧
          (p.1.context.state child.id = .completed ∨
            p.1.context.state child.id = .failed ∧ ∃ fault : Fault, value = fault.value child.id))
          n.children values) ∧
    (∀ text, n.kind = .condition text →
      p.1.context.results.find? n.id = some .null ∧
          (∀ child ∈ n.children, p.1.context.state child.id = .pending) ∨
        ∃ before child after, n.children = before ++ child :: after ∧
          (∀ other ∈ before ++ after, p.1.context.state other.id = .pending) ∧
          p.1.context.state child.id = .completed ∧
          ∃ value, p.1.context.results.find? child.id = some value ∧
            p.1.context.results.find? n.id = some value) := by
  have untouched : s₀.context.Untouched root := s₀.context.untouched_of_nodes nodes root
  have accounts := (h.accounts distinct nodes results).context
  have recorded := accounts.recorded
  obtain ⟨value, shown⟩ : ∃ value, (p.1.context.phase n.id).result? = some value := by
    refine Option.isSome_iff_exists.1 ((accounts.consistent n.id).valued.2 ?_)
    rw [← Context.state, completed]
    rfl
  have sums := (h.agreed untouched distinct).tallied n inside value ⟨completed, shown⟩
  unfold Context.Sums at sums
  refine ⟨fun kind => ?_, fun spec kind waits => ?_, fun text kind => ?_⟩
  · simp only [kind] at sums
    obtain ⟨values, rfl, each⟩ := sums
    refine ⟨values, recorded _ _ shown, each.imp fun child value yields => ?_⟩
    exact ⟨yields.1, recorded _ _ yields.2⟩
  · simp only [kind] at sums
    obtain ⟨values, rfl, each⟩ := sums waits
    refine ⟨values, recorded _ _ shown, each.imp fun child value fills => ?_⟩
    rcases fills with yields | ⟨fault, ⟨failed, result⟩, rfl⟩
    · exact ⟨recorded _ _ yields.2, .inl yields.1⟩
    · exact ⟨recorded _ _ result, .inr ⟨failed, fault, rfl⟩⟩
  · simp only [kind] at sums
    rcases sums with ⟨rfl, idle⟩ | ⟨before, child, after, children, others, yields⟩
    · exact .inl ⟨recorded _ _ shown, idle⟩
    · exact .inr ⟨before, child, after, children, others, yields.1, value, recorded _ _ yields.2,
        recorded _ _ shown⟩

/-- Both tasks of the small run have their answers. -/
def finished : RunState × Stage := step slow (later halfway.1 10) halfway.2 (.wake ⟨1, false⟩)

theorem reaches_finished : Reaches slow pair none outset finished :=
  reaches_halfway.tail (.any slow _ _ 10 (.wake ⟨1, false⟩))

/-- The two tasks that run one after the other have the result of both as a list. -/
theorem block_results_finished : pair.ids.Nodup ∧ outset.context.nodes = [] ∧
    outset.context.results = [] ∧ Reaches slow pair none outset finished ∧ pair ∈ pair.preorder ∧
    finished.1.context.state pair.id = .completed ∧ pair.kind = .sequence ∧
    ∃ values, finished.1.context.results.find? "both" = some (.arr values) ∧
      List.Forall₂ (fun child value => finished.1.context.state child.id = .completed ∧
        finished.1.context.results.find? child.id = some value) pair.children values := by
  have distinct : pair.ids.Nodup := by decide
  have completed : finished.1.context.state pair.id = .completed := rfl
  refine ⟨distinct, rfl, rfl, reaches_finished, pair.mem_preorder_self, completed, rfl, ?_⟩
  exact (block_results slow pair none outset distinct rfl rfl reaches_finished
    pair.mem_preorder_self completed).1 rfl

end Run

end Stepwise

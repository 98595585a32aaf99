import Stepwise.Run.Start
import Stepwise.Proofs.Run.Act

/-!
# How nodes start

Whatever a node does as it starts is done by acts on its own tree, and what it comes to heeds the
cancellation of the run: `advances_start`. The proof goes through the tree, with a lemma for each
way in which the parts of a node are put together.
-/

namespace Stepwise

/-- The outcome of what has ended. -/
def Progress.outcome? : Progress → Option (Except Fault Json)
  | .ended outcome => some outcome
  | .waiting _ => none

/-- The outcome of steps in turn, if they have ended. -/
def Course.outcome? : Course → Option (Except Fault (List Json))
  | .ended outcome => some outcome
  | .waiting .. => none

/-- The child in a lane. -/
def Lane.child {α : Type} : Lane α → Node
  | running child _ => child
  | ended child _ => child

namespace Run

/-- Before a step is over, all that is left to do is to make one more call and to wait for its
answer, or to wait for something else. -/
inductive Opens (engine : Engine) (s : RunState) : RunState → Prop
  | same : Opens engine s s
  | call {caller : String} {call : Call} (live : s.context.cancelled = false)
      (later : (s.place engine caller call).1.delay ≠ 0) :
      Opens engine s ((s.place engine caller call).2.defer (s.place engine caller call).1.opening)
  | wait {s' : RunState} (opens : Opens engine s s') : Opens engine s s'.takeTicket.2

/-- What calls have put off as they began is done by acts. -/
theorem Opens.acts {ids : List String} {s s' : RunState} (opens : Opens engine s s') :
    Acts engine .heeding ids s s' := by
  have slow : Manner.heeding ≠ .prompt := Manner.noConfusion
  induction opens with
  | same => exact .refl
  | @call caller call live later =>
    have called : Acts engine .heeding ids s (s.place engine caller call).2 :=
      .single (.callLater slow live)
    exact called.tail (.note slow _)
  | wait _ ih => exact ih.tail .wait

/-- The context stays as it is, and at most one call is made, whose beginning is put off. -/
theorem Opens.cases {s s' : RunState} (opens : Opens engine s s') : s'.context = s.context ∧
    (s'.world.calls = s.world.calls ∨ ∃ caller call, s.context.cancelled = false ∧
      (s.place engine caller call).1.delay ≠ 0 ∧
      s'.world.calls = s.world.calls ++ [⟨caller, s.now, s.context, call⟩] ∧
      s'.world.openings = s.world.openings ++ (s.place engine caller call).1.opening) := by
  induction opens with
  | same => exact ⟨rfl, .inl rfl⟩
  | @call caller call live later => exact ⟨rfl, .inr ⟨caller, call, live, later, rfl, rfl⟩⟩
  | wait _ ih => exact ih

/-- From one state something comes to an outcome by acts on nodes of some ids that put nothing off,
or it waits, perhaps for the answer to a call that it has just made. -/
def Does {α : Type} (engine : Engine) (ids : List String) (s s' : RunState) : Option α → Prop
  | some _ => Acts engine .prompt ids s s'
  | none => ∃ middle, Acts engine .prompt ids s middle ∧ Opens engine middle s'

namespace Does

variable {α : Type} {engine : Engine} {ids more : List String} {s s' s'' : RunState}
  {outcome? : Option α}

/-- Whatever is done until the end of a step is done by acts. -/
theorem acts (does : Does engine ids s s' outcome?) : Acts engine .heeding ids s s' := by
  cases outcome? with
  | some outcome => exact Acts.of_prompt does
  | none =>
    obtain ⟨middle, acts, opens⟩ := does
    exact acts.of_prompt.trans opens.acts

/-- What is done at once before belongs to the same step. -/
theorem after (does : Does engine ids s' s'' outcome?) (acts : Acts engine .prompt ids s s') :
    Does engine ids s s'' outcome? := by
  cases outcome? with
  | some outcome => exact Relation.ReflTransGen.trans acts does
  | none =>
    obtain ⟨middle, later, opens⟩ := does
    exact ⟨middle, acts.trans later, opens⟩

theorem mono (does : Does engine ids s s' outcome?) (subset : ids ⊆ more) :
    Does engine more s s' outcome? := by
  cases outcome? with
  | some outcome => exact Acts.mono does subset
  | none =>
    obtain ⟨middle, acts, opens⟩ := does
    exact ⟨middle, acts.mono subset, opens⟩

end Does

/-- From one state a node comes to some progress, by acts on nodes of some ids and in heed of the
cancellation. -/
structure Advances (engine : Engine) (ids : List String) (s : RunState) (p : RunState × Progress) :
    Prop where
  does : Does engine ids s p.1 p.2.outcome?
  heeds : Heeds p.1.context.cancelled p.2.outcome?

/-- Likewise for steps in turn. -/
structure Proceeds (engine : Engine) (ids : List String) (s : RunState) (p : RunState × Course) :
    Prop where
  does : Does engine ids s p.1 p.2.outcome?
  heeds : Heeds p.1.context.cancelled p.2.outcome?

variable {engine : Engine} {ids : List String} {s s' : RunState}

theorem Advances.acts {p : RunState × Progress} (h : Advances engine ids s p) :
    Acts engine .heeding ids s p.1 := h.does.acts

theorem Proceeds.acts {p : RunState × Course} (h : Proceeds engine ids s p) :
    Acts engine .heeding ids s p.1 := h.does.acts

theorem Advances.after {p : RunState × Progress} (acts : Acts engine .prompt ids s s')
    (h : Advances engine ids s' p) : Advances engine ids s p := ⟨h.does.after acts, h.heeds⟩

theorem Advances.mono {p : RunState × Progress} {more : List String} (h : Advances engine ids s p)
    (subset : ids ⊆ more) : Advances engine more s p := ⟨h.does.mono subset, h.heeds⟩

theorem Proceeds.after {p : RunState × Course} (acts : Acts engine .prompt ids s s')
    (h : Proceeds engine ids s' p) : Proceeds engine ids s p := ⟨h.does.after acts, h.heeds⟩

/-- A node that waits for something but an answer. -/
theorem Advances.waits {activity : Activity} (acts : Acts engine .prompt ids s s')
    (live : s'.context.cancelled = false) : Advances engine ids s (s', .waiting activity) :=
  ⟨⟨s', acts, .same⟩, live⟩

/-- A cancelled run ends with its own cancellation. -/
theorem advances_cancelled (h : s.context.cancelled = true) :
    Advances engine ids s (s, .ended (.error s.cancelledFault)) := ⟨.refl, h.symm⟩

/-! ## The end of a node -/

/-- A node that ends records its outcome, and heeds what it heeded before. -/
theorem advances_close {node : Node} {p : RunState × Progress} (h : Advances engine ids s p)
    (member : node.id ∈ ids) : Advances engine ids s (close node p) := by
  obtain ⟨s', progress⟩ := p
  cases progress with
  | waiting activity => exact h
  | ended outcome =>
    have acts : Acts engine .prompt ids s s' := h.does
    refine ⟨acts.tail (.record h.heeds member), ?_⟩
    rw [close, RunState.cancelled_record]
    exact h.heeds

/-! ## Tasks -/

/-- An outcome that is no cancellation. -/
def Plain {α : Type} (outcome : Except Fault α) : Prop :=
  ∀ fault, outcome = .error fault → fault.isCancelled = false

/-- No answer counts as a cancellation. -/
theorem plain_outcomeOf (spec : TaskSpec) (reply : Reply) : Plain (outcomeOf spec reply) := by
  intro fault h
  cases houtcome : reply.outcome with
  | ok value => simp [outcomeOf, houtcome, Except.mapError] at h
  | error text =>
    simp only [outcomeOf, houtcome, Except.mapError, Except.error.injEq] at h
    rw [← h]
    rfl

/-- An answer that comes late does not count as a cancellation. -/
theorem plain_lateOutcome (spec : TaskSpec) : Plain (lateOutcome spec) := by
  intro fault h
  cases h
  rfl

/-- The last fault of a task is no cancellation if that of its attempt is none. -/
theorem isCancelled_exhausted (node : Node) (spec : TaskSpec) {fault : Fault}
    (h : fault.isCancelled = false) : (exhausted node spec fault).isCancelled = false := by
  unfold exhausted
  split
  · exact h
  · rfl

/-- After an attempt a task goes on as it is told to, unless the run is cancelled. -/
theorem advances_settle {node : Node} {spec : TaskSpec} {call : Call} {left : Nat}
    {again : RunState → RunState × Progress} {outcome : Except Fault Json}
    (next : ∀ s : RunState, s.context.cancelled = false → Advances engine ids s (again s))
    (plain : Plain outcome) (s : RunState) :
    Advances engine ids s (settle engine node spec call left again s outcome) := by
  unfold settle
  by_cases dead : s.context.cancelled = true
  · rw [if_pos dead]
    exact advances_cancelled dead
  · rw [if_neg dead]
    have live : s.context.cancelled = false := eq_false_of_ne_true dead
    cases outcome with
    | ok value => exact ⟨.refl, live⟩
    | error fault =>
      have plain := plain fault rfl
      by_cases last : left = 0
      · simp only [last, if_true]
        exact ⟨.refl, (isCancelled_exhausted node spec plain).trans live.symm⟩
      · simp only [last, if_false]
        have retried : Acts engine .prompt ids s (s.retry node.id (attempts spec - left) fault) :=
          .single (.retry live)
        split
        · exact (next (s.retry node.id (attempts spec - left) fault) live).after retried
        · exact .waits (retried.tail .wait) live

/-- However often a task is called, it heeds a cancellation after each call. -/
theorem advances_attempt (node : Node) (spec : TaskSpec) (call : Call) (left : Nat) :
    ∀ s : RunState, s.context.cancelled = false →
      Advances engine ids s (attempt engine node spec call left s) := by
  induction left with
  | zero => exact fun s live => ⟨.refl, live.symm⟩
  | succ left ih =>
    intro s live
    simp only [attempt]
    have called : Acts engine .prompt ids s ((s.place engine node.id call).2.applyAll
        (s.place engine node.id call).1.beginning) := .single (.call live)
    by_cases atOnce : (s.place engine node.id call).1.delay = 0
    · rw [if_pos atOnce]
      rw [Reply.beginning, if_pos atOnce] at called
      exact (advances_settle ih (plain_outcomeOf spec _) _).after called
    · rw [if_neg atOnce]
      rw [Reply.beginning, if_neg atOnce] at called
      split
      · exact (advances_settle ih (plain_lateOutcome spec) _).after called
      · exact ⟨⟨s, .refl, .wait (.call live atOnce)⟩, live⟩

/-! ## Waits -/

/-- A look at a condition changes nothing but the ticket of the next one. -/
theorem advances_poll (node : Node) (spec : WaitSpec) (deadline : Option Nat) (s : RunState) :
    Advances engine ids s (poll engine node spec deadline s) := by
  unfold poll
  by_cases dead : s.context.cancelled = true
  · rw [if_pos dead]
    exact advances_cancelled dead
  · rw [if_neg dead]
    have live : s.context.cancelled = false := eq_false_of_ne_true dead
    split
    · exact ⟨.refl, live⟩
    · dsimp only
      split
      · exact ⟨.refl, live⟩
      · exact .waits (.single .wait) live

/-! ## Steps in turn -/

theorem advances_asSequence {node : Node} {p : RunState × Course} (h : Proceeds engine ids s p) :
    Advances engine ids s (asSequence node p) := by
  obtain ⟨s', course⟩ := p
  cases course with
  | waiting done current rest => exact ⟨h.does, h.heeds⟩
  | ended outcome =>
    cases outcome with
    | ok values => exact ⟨h.does, h.heeds⟩
    | error fault => exact ⟨h.does, h.heeds⟩

theorem advances_asBranch {node : Node} {p : RunState × Progress} (h : Advances engine ids s p) :
    Advances engine ids s (asBranch node p) := by
  obtain ⟨s', progress⟩ := p
  cases progress with
  | waiting current => exact ⟨h.does, h.heeds⟩
  | ended outcome => exact ⟨h.does, h.heeds⟩

/-- Steps in turn heed a cancellation, since each of them does. -/
theorem proceeds_startAll {nodes : List Node}
    (each : ∀ node ∈ nodes, ∀ s, Advances engine ids s (start engine s node)) (done : List Json) :
    ∀ s : RunState, s.context.cancelled = false →
      Proceeds engine ids s (startAll engine done s nodes) := by
  induction nodes generalizing done with
  | nil =>
    intro s live
    rw [startAll]
    exact ⟨.refl, live⟩
  | cons node rest ih =>
    intro s live
    have first := each node List.mem_cons_self s
    have ih := ih (fun n member => each n (List.mem_cons_of_mem _ member))
    rw [startAll]
    generalize start engine s node = p at first
    obtain ⟨s', progress⟩ := p
    cases progress with
    | waiting current => exact ⟨first.does, first.heeds⟩
    | ended outcome =>
      cases outcome with
      | error fault => exact ⟨first.does, first.heeds⟩
      | ok value => exact (ih _ s' first.heeds).after first.does

theorem advances_startBranch {nodes : List Node}
    (each : ∀ node ∈ nodes, ∀ s, Advances engine ids s (start engine s node)) (side : Branch)
    (s : RunState) (live : s.context.cancelled = false) :
    Advances engine ids s (startBranch engine side s nodes) := by
  induction nodes with
  | nil =>
    rw [startBranch]
    exact ⟨.refl, live⟩
  | cons node rest ih =>
    rw [startBranch]
    split
    · exact each node List.mem_cons_self s
    · exact ih fun n member => each n (List.mem_cons_of_mem _ member)

/-! ## Loops -/

/-- A round whose loop goes on has not met a cancellation. -/
theorem heeds_afterRound {cancelled : Bool} (spec : LoopSpec) (finished : List Json)
    {outcome : Except Fault (List Json)} (h : Heeds cancelled (some outcome)) :
    match afterRound spec finished outcome with
    | .inl outcome => Heeds cancelled (some outcome)
    | .inr _ => cancelled = false := by
  cases outcome with
  | ok values => exact h
  | error fault =>
    simp only [afterRound]
    by_cases hfault : fault.isCancelled
    · simp only [hfault, if_true]
      exact h
    · have live : cancelled = false := h.symm.trans (eq_false_of_ne_true hfault)
      simp only [hfault]
      cases spec.breakOnError with
      | true => exact live
      | false => exact live

/-- However many rounds it has, a loop heeds a cancellation before and after each. -/
theorem advances_rounds {node : Node} {spec : LoopSpec} {body : RunState → RunState × Course}
    (round : ∀ s : RunState, s.context.cancelled = false → Proceeds engine ids s (body s))
    (members : Node.idsAll node.children ⊆ ids) (remaining : Nat) :
    ∀ (first : Bool) (finished : List Json) (s : RunState), s.context.cancelled = false →
      Advances engine ids s (rounds node spec body remaining first finished s) := by
  induction remaining with
  | zero => exact fun first finished s live => ⟨.refl, live⟩
  | succ remaining ih =>
    intro first finished s live
    rw [rounds, if_neg (ne_true_of_eq_false live)]
    split
    · exact ⟨.refl, live⟩
    · -- The body starts in the same state, or in one in which it is rearmed.
      have ready : ∃ s', (if first then s else s.rearm node.children) = s' ∧
          Acts engine .prompt ids s s' ∧ s'.context.cancelled = false := by
        cases first with
        | true => exact ⟨s, rfl, .refl, live⟩
        | false => exact ⟨_, rfl, .single (.rearm live members), (s.cancelled_rearm _).trans live⟩
      obtain ⟨s', heq, acts, live'⟩ := ready
      rw [heq]
      have done := (round s' live').after acts
      generalize body s' = p at done
      obtain ⟨s'', course⟩ := p
      cases course with
      | waiting done current rest => exact ⟨done.does, done.heeds⟩
      | ended outcome =>
        have heeds := heeds_afterRound spec finished done.heeds
        dsimp only
        generalize afterRound spec finished outcome = after at heeds
        cases after with
        | inl outcome => exact ⟨done.does, heeds⟩
        | inr finished => exact (ih false finished s'' heeds).after done.does

/-! ## Parallel blocks -/

/-- A block keeps no cancellation as its first failure. -/
abbrev PlainError (firstError : Option Fault) : Prop :=
  ∀ fault ∈ firstError, fault.isCancelled = false

/-- A child whose block goes on has not met a cancellation. -/
theorem heeds_judge {cancelled : Bool} (spec : ParallelSpec) {firstError : Option Fault}
    (plain : PlainError firstError) (child : Node) {outcome : Except Fault Json}
    (h : Heeds cancelled (some outcome)) :
    match judge spec firstError child outcome with
    | .goOn _ firstError => cancelled = false ∧ PlainError firstError
    | .stop outcome => Heeds cancelled (some outcome) := by
  cases outcome with
  | ok value =>
    simp only [judge]
    cases spec.waitForAll with
    | true => exact ⟨h, plain⟩
    | false => exact h
  | error fault =>
    simp only [judge]
    by_cases stops : (fault.isCancelled || (spec.failFast && spec.waitForAll)) = true
    · rw [if_pos stops]
      exact h
    · rw [if_neg stops]
      have hfault : fault.isCancelled = false := by
        revert stops
        cases fault.isCancelled <;> simp
      refine ⟨h.symm.trans hfault, fun first member => ?_⟩
      cases firstError with
      | none =>
        cases Option.mem_some.1 member
        exact hfault
      | some known => exact plain first member

theorem unfinished?_eq_some {α : Type} {lane : Lane α} {child : Node}
    (h : lane.unfinished? = some child) : lane.child = child := by
  cases lane with
  | running _ _ => exact Option.some.inj h
  | ended _ _ => cases h

/-- The children that a block stops are among its children. -/
theorem idsAll_unfinished_subset {before after : List (Lane Activity)} {queue : List Node} :
    Node.idsAll
        (before.filterMap Lane.unfinished? ++ after.filterMap Lane.unfinished? ++ queue) ⊆
      Node.idsAll ((before ++ after).map Lane.child ++ queue) := by
  intro id member
  obtain ⟨child, member, hid⟩ := Node.mem_idsAll.1 member
  refine Node.mem_idsAll.2 ⟨child, ?_, hid⟩
  rw [← List.filterMap_append, List.mem_append, List.mem_filterMap] at member
  rcases member with ⟨lane, hlane, unfinished⟩ | member
  · exact List.mem_append_left _ (List.mem_map.2 ⟨lane, hlane, unfinished?_eq_some unfinished⟩)
  · exact List.mem_append_right _ member

/-- A block that stops sweeps its children and nothing else. -/
theorem advances_stop {before after : List (Lane Activity)} {queue : List Node}
    {outcome : Except Fault Json} (acts : Acts engine .prompt ids s s')
    (heeds : Heeds s'.context.cancelled (some outcome))
    (members : Node.idsAll ((before ++ after).map Lane.child ++ queue) ⊆ ids) :
    Advances engine ids s (stop before after queue outcome s') := by
  refine ⟨acts.tail (.sweep (List.Subset.trans idsAll_unfinished_subset members)), ?_⟩
  rw [stop, RunState.cancelled_sweep]
  cases outcome with
  | ok value => exact heeds
  | error fault => exact heeds

theorem heeds_conclude (spec : ParallelSpec) (lanes : List (Lane Activity))
    {firstError : Option Fault}
    (plain : PlainError firstError) : Heeds false (some (conclude spec lanes firstError)) := by
  cases firstError with
  | none => rfl
  | some fault =>
    simp only [conclude]
    split
    · exact plain fault rfl
    · rfl

/-- A block that goes on hands out a ticket at most. -/
theorem advances_carryOn {block : Node} {spec : ParallelSpec} {limit : Nat}
    (lanes : List (Lane Activity)) {firstError : Option Fault} (queue : List Node)
    (plain : PlainError firstError) (live : s.context.cancelled = false) :
    Advances engine ids s (carryOn block spec limit lanes firstError s queue) := by
  cases queue with
  | nil =>
    rw [carryOn]
    split
    · exact .waits .refl live
    · refine ⟨.refl, ?_⟩
      rw [live]
      exact heeds_conclude spec lanes plain
  | cons child rest =>
    rw [carryOn]
    split
    · exact .waits .refl live
    · exact .waits (.single .wait) live

/-- A block one of whose children waits waits itself. -/
theorem advances_carryOn_waiting {block : Node} {spec : ParallelSpec} {limit : Nat}
    {lanes : List (Lane Activity)} {firstError : Option Fault} (queue : List Node)
    (busy : lanes.any Lane.isRunning = true) {activity : Activity}
    (h : Advances engine ids s (s', .waiting activity)) :
    Advances engine ids s (carryOn block spec limit lanes firstError s' queue) := by
  cases queue with
  | nil =>
    rw [carryOn, if_pos busy]
    exact ⟨h.does, h.heeds⟩
  | cons child rest =>
    rw [carryOn]
    split
    · exact ⟨h.does, h.heeds⟩
    · obtain ⟨middle, acts, opens⟩ := h.does
      exact ⟨⟨middle, acts, .wait opens⟩, h.heeds⟩

/-- A block goes on after its child, or stops; either way it heeds what the child heeded. -/
theorem advances_afterChild {block : Node} {spec : ParallelSpec} {limit : Nat}
    {before after : List (Lane Activity)} {child : Node} {queue : List Node}
    {firstError : Option Fault} {outcome : Except Fault Json} (plain : PlainError firstError)
    (acts : Acts engine .prompt ids s s') (heeds : Heeds s'.context.cancelled (some outcome))
    (members : Node.idsAll ((before ++ after).map Lane.child ++ queue) ⊆ ids) :
    Advances engine ids s
      (afterChild block spec limit queue firstError s' before child outcome after) := by
  have heeds := heeds_judge spec plain child heeds
  unfold afterChild
  generalize judge spec firstError child outcome = verdict at heeds
  cases verdict with
  | goOn slot firstError => exact (advances_carryOn _ queue heeds.2 heeds.1).after acts
  | stop outcome => exact advances_stop acts heeds members

/-! ## Nodes -/

/-- What a node does once it has started. -/
def work (engine : Engine) (node : Node) (s : RunState) : RunState × Progress :=
  match node.kind with
  | .task spec => attempt engine node spec (callOf spec s) (attempts spec) s
  | .sequence => asSequence node (startAll engine [] s node.children)
  | .parallel spec =>
    carryOn node spec (laneLimit spec node.children.length) [] none s node.children
  | .condition text =>
    asBranch node
      (startBranch engine (if s.holds text then .onTrue else .onFalse) s node.children)
  | .loop spec =>
    rounds node spec (fun s => startAll engine [] s node.children) (maxRounds engine spec) true [] s
  | .wait spec => startWait engine node spec s

/-- A node starts by its work, unless the run is cancelled. -/
theorem start_eq (engine : Engine) (s : RunState) (node : Node) : start engine s node =
    if s.context.cancelled then (s.touch node.id, .ended (.error s.cancelledFault))
    else close node (work engine node (s.startNode node)) := by
  cases node
  rw [start]
  rfl

/-- The work of a node is done within the trees of its children. -/
theorem advances_work (node : Node)
    (each : ∀ child ∈ node.children, ∀ s, Advances engine child.ids s (start engine s child))
    (s : RunState) (live : s.context.cancelled = false) :
    Advances engine (Node.idsAll node.children) s (work engine node s) := by
  have each (child : Node) (member : child ∈ node.children) (s : RunState) :
      Advances engine (Node.idsAll node.children) s (start engine s child) :=
    (each child member s).mono (Node.idsAll_subset member)
  unfold work
  split
  · exact advances_attempt node _ _ _ s live
  · exact advances_asSequence (proceeds_startAll each [] s live)
  · exact advances_carryOn [] node.children nofun live
  · exact advances_asBranch (advances_startBranch each _ s live)
  · exact advances_rounds (proceeds_startAll each []) (List.Subset.refl _) _ true [] s live
  · exact advances_poll node _ _ s

/-- A node advances by acts on its own tree. -/
theorem advances_start (engine : Engine) (node : Node) (s : RunState) :
    Advances engine node.ids s (start engine s node) := by
  induction node using Node.induction generalizing s with
  | step node ih =>
    rw [start_eq]
    by_cases dead : s.context.cancelled = true
    · rw [if_pos dead]
      exact ⟨.single (.list dead (Node.mem_ids_self node)), dead.symm⟩
    · rw [if_neg dead]
      have live : s.context.cancelled = false := eq_false_of_ne_true dead
      have begun : Acts engine .prompt node.ids s (s.startNode node) :=
        .single (.begin live (Node.mem_ids_self node))
      have worked := (advances_work node ih (s.startNode node) live).mono
        (Node.idsAll_children_subset node)
      exact advances_close (worked.after begun) (Node.mem_ids_self node)

end Run

end Stepwise

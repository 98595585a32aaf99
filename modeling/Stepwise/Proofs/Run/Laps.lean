import Stepwise.Proofs.Run.Below
import Stepwise.Proofs.Run.Collect
import Stepwise.Proofs.Run.Silence
import Stepwise.Proofs.Run.Verdicts
import Stepwise.Proofs.Run.Vigil

/-!
# Laps of loops

A loop looks at its condition and, if it holds, takes the steps of its body one after another, until
all have ended well or one has failed: that is a lap. Before any lap but the first the body is
rearmed. `Laps` says no more than that, in which states a loop looks and with what outcome each body
ends, and `Halts` says when it is over and what entries its value has then. An execution of a loop
that ends well is laps that come to a halt (`loop_lapped`).
-/

namespace Stepwise.Run

variable {engine : Engine} {wakes : Wakes}

/-! ## Steps in turn -/

/-- Steps are taken one after another, each in an execution that begins in the state in which the
one before has ended well: the values of those done, those to come, and the state. -/
inductive Walk (engine : Engine) (wakes : Wakes) (steps : List Node) (s₀ : RunState) :
    List Json → List Node → RunState → Prop
  | sets : Walk engine wakes steps s₀ [] steps s₀
  | takes {done : List Json} {child : Node} {rest : List Node} {value : Json} {s s' : RunState}
      (walk : Walk engine wakes steps s₀ done (child :: rest) s)
      (execution : Execution engine wakes child s (s', .ended (.ok value))) :
      Walk engine wakes steps s₀ (done ++ [value]) rest s'

/-- What steps have come to that are taken one after another: one waits, all have ended well, or one
has failed and those after it are left out. -/
inductive Stepped (engine : Engine) (wakes : Wakes) (steps : List Node) (s₀ : RunState) :
    RunState × Course → Prop
  | waits {done : List Json} {child : Node} {rest : List Node} {current : Activity}
      {s s' : RunState} (walk : Walk engine wakes steps s₀ done (child :: rest) s)
      (execution : Execution engine wakes child s (s', .waiting current)) :
      Stepped engine wakes steps s₀ (s', .waiting done current rest)
  | through {done : List Json} {s : RunState} (walk : Walk engine wakes steps s₀ done [] s) :
      Stepped engine wakes steps s₀ (s, .ended (.ok done))
  | fails {done : List Json} {child : Node} {rest : List Node} {fault : Fault} {s s' : RunState}
      (walk : Walk engine wakes steps s₀ done (child :: rest) s)
      (execution : Execution engine wakes child s (s', .ended (.error fault))) :
      Stepped engine wakes steps s₀ (s', .ended (.error fault))

section

variable {steps rest : List Node} {s₀ s : RunState} {done : List Json} {child : Node}

/-- Each step is done, with a value, or still to come. -/
theorem Walk.split (walk : Walk engine wakes steps s₀ done rest s) :
    ∃ before, steps = before ++ rest ∧ before.length = done.length := by
  induction walk with
  | sets => exact ⟨[], rfl, rfl⟩
  | @takes done child rest _ _ _ _ _ ih =>
    obtain ⟨before, split, count⟩ := ih
    refine ⟨before ++ [child], ?_, ?_⟩
    · rw [split, List.append_assoc, List.singleton_append]
    · rw [List.length_append, List.length_append, count]
      rfl

/-- A step that goes on after those done leads to where the rest may lead. -/
theorem stepped_andThen_of {p : RunState × Progress}
    (next : ∀ done s, Walk engine wakes steps s₀ done rest s →
      Stepped engine wakes steps s₀ (startAll engine done s rest))
    (walk : Walk engine wakes steps s₀ done (child :: rest) s)
    (execution : Execution engine wakes child s p) :
    Stepped engine wakes steps s₀ (andThen engine done rest p) := by
  obtain ⟨s', progress⟩ := p
  cases progress with
  | waiting current => exact .waits walk execution
  | ended outcome =>
    cases outcome with
    | error fault => exact .fails walk execution
    | ok value => exact next _ _ (walk.takes execution)

/-- Steps that have walked up to here go on as far as they can. -/
theorem stepped_startAll (walk : Walk engine wakes steps s₀ done rest s) :
    Stepped engine wakes steps s₀ (startAll engine done s rest) := by
  induction rest generalizing done s with
  | nil =>
    rw [startAll]
    exact .through walk
  | cons child rest ih =>
    rw [startAll_cons]
    exact stepped_andThen_of (fun _ _ walk => ih walk) walk .starts

/-- Steps in turn go on when one of them has ended. -/
theorem stepped_andThen {p : RunState × Progress}
    (walk : Walk engine wakes steps s₀ done (child :: rest) s)
    (execution : Execution engine wakes child s p) :
    Stepped engine wakes steps s₀ (andThen engine done rest p) :=
  stepped_andThen_of (fun _ _ walk => stepped_startAll walk) walk execution

/-- Steps that have all ended well have a value each. -/
theorem Stepped.length_eq {values : List Json}
    (h : Stepped engine wakes steps s₀ (s, .ended (.ok values))) : values.length = steps.length := by
  cases h with
  | through walk =>
    obtain ⟨before, split, count⟩ := walk.split
    rw [split, List.append_nil, count]

end

/-! ## Laps -/

/-- A lap of a loop: the state in which the loop looks at its condition, the state in which the body
begins, and what the body comes to. -/
structure Lap where
  look : RunState
  start : RunState
  outcome : Except Fault (List Json)

namespace Lap

/-- The entry of a lap in the value of its loop: the values of the body, or null if it failed. -/
def entry (lap : Lap) : Json :=
  match lap.outcome with
  | .ok values => .arr values
  | .error _ => .null

/-- The loop goes on after a lap: after a failure that is no cancellation only if it does not break
on errors. -/
def Passes (spec : LoopSpec) (lap : Lap) : Prop :=
  match lap.outcome with
  | .ok _ => True
  | .error fault => fault.isCancelled = false ∧ spec.breakOnError = false

end Lap

/-- The state in which the body begins if the loop looks in a state after some laps: the body is
rearmed unless it is the first lap. -/
def armed (loop : Node) (laps : List Lap) (s : RunState) : RunState :=
  if laps.isEmpty then s else s.rearm loop.children

/-- After some laps a loop has another: there is room for it, and the condition holds. -/
structure Enters (engine : Engine) (spec : LoopSpec) (laps : List Lap) (s : RunState) : Prop where
  passed : ∀ lap ∈ laps, lap.Passes spec
  room : laps.length < maxRounds engine spec
  live : s.context.cancelled = false
  holds : s.holds spec.condition = true

/-- The laps of a loop that was started in some state. Each begins in the state in which the one
before has ended. -/
inductive Laps (engine : Engine) (wakes : Wakes) (loop : Node) (spec : LoopSpec) (s₀ : RunState) :
    List Lap → RunState → Prop
  | sets : Laps engine wakes loop spec s₀ [] (s₀.startNode loop)
  | runs {laps : List Lap} {s s' : RunState} {outcome : Except Fault (List Json)}
      (earlier : Laps engine wakes loop spec s₀ laps s) (enters : Enters engine spec laps s)
      (body : Stepped engine wakes loop.children (armed loop laps s) (s', .ended outcome)) :
      Laps engine wakes loop spec s₀ (laps ++ [⟨s, armed loop laps s, outcome⟩]) s'

/-- When a loop is over after some laps in some state, and the entries of its value then. -/
inductive Halts (engine : Engine) (spec : LoopSpec) : List Lap → RunState → List Json → Prop
  /-- The condition does not hold. -/
  | unmet {laps : List Lap} {s : RunState} (passed : ∀ lap ∈ laps, lap.Passes spec)
      (room : laps.length < maxRounds engine spec) (live : s.context.cancelled = false)
      (fails : s.holds spec.condition = false) : Halts engine spec laps s (laps.map Lap.entry)
  /-- There is no room for another lap. -/
  | spent {laps : List Lap} {s : RunState} (passed : ∀ lap ∈ laps, lap.Passes spec)
      (count : laps.length = maxRounds engine spec) : Halts engine spec laps s (laps.map Lap.entry)
  /-- The last lap has failed, and the loop breaks on errors. That lap has no entry. -/
  | broken {laps : List Lap} {last : Lap} {fault : Fault} {s : RunState}
      (passed : ∀ lap ∈ laps, lap.Passes spec) (failed : last.outcome = .error fault)
      (plain : fault.isCancelled = false) (breaks : spec.breakOnError = true) :
      Halts engine spec (laps ++ [last]) s (laps.map Lap.entry)

section

variable {loop : Node} {spec : LoopSpec} {s₀ s s' : RunState} {laps : List Lap}

namespace Laps

/-- A loop has no more laps than it may. -/
theorem length_le (h : Laps engine wakes loop spec s₀ laps s) :
    laps.length ≤ maxRounds engine spec := by
  cases h with
  | sets => exact Nat.zero_le _
  | runs _ enters _ =>
    rw [List.length_append]
    exact enters.room

/-- What holds of any lap that follows some others holds of all. -/
theorem each (h : Laps engine wakes loop spec s₀ laps s) {P : Lap → Prop}
    (step : ∀ {laps : List Lap} {s s' : RunState} {outcome : Except Fault (List Json)},
      Laps engine wakes loop spec s₀ laps s → Enters engine spec laps s →
      Stepped engine wakes loop.children (armed loop laps s) (s', .ended outcome) →
      P ⟨s, armed loop laps s, outcome⟩) : ∀ lap ∈ laps, P lap := by
  induction h with
  | sets => exact nofun
  | runs earlier enters body ih =>
    intro lap member
    rcases List.mem_append.1 member with member | member
    · exact ih lap member
    · rw [List.mem_singleton.1 member]
      exact step earlier enters body

/-- Where a body begins nothing in it has begun, if nothing in the tree of the loop had begun when
the loop started. -/
theorem pending (h : Laps engine wakes loop spec s₀ laps s) (untouched : s₀.context.Untouched loop)
    (distinct : loop.ids.Nodup) : ∀ id ∈ Node.idsAll loop.children,
      (armed loop laps s).context.phase id = .pending := by
  intro id hid
  cases h with
  | sets =>
    obtain ⟨child, member, hid⟩ := Node.mem_idsAll.1 hid
    exact (s₀.startNode_of_untouched untouched distinct).2 child member id hid
  | @runs laps s _ outcome earlier enters body =>
    have later : (laps ++ [(⟨s, armed loop laps s, outcome⟩ : Lap)]).isEmpty = false := by simp
    rw [armed, later]
    exact (RunState.phase_rearm _ loop.children id).trans (if_pos hid)

end Laps

/-! ## Executions of loops -/

/-- What a loop has come to in its laps: it waits in the body of one more, it has come to a halt, or
it is cancelled. -/
inductive Lapped (engine : Engine) (wakes : Wakes) (loop : Node) (spec : LoopSpec) (s₀ : RunState) :
    RunState × Progress → Prop
  | waits {laps : List Lap} {remaining : Nat} {done : List Json} {child : Node} {rest : List Node}
      {current : Activity} {s t s' : RunState} (ran : Laps engine wakes loop spec s₀ laps s)
      (enters : Enters engine spec laps s)
      (count : laps.length + 1 + remaining = maxRounds engine spec)
      (walk : Walk engine wakes loop.children (armed loop laps s) done (child :: rest) t)
      (execution : Execution engine wakes child t (s', .waiting current)) :
      Lapped engine wakes loop spec s₀
        (s', .waiting (.loop loop spec remaining (laps.map Lap.entry) done current rest))
  | halts {laps : List Lap} {values : List Json} {s : RunState}
      (ran : Laps engine wakes loop spec s₀ laps s) (halted : Halts engine spec laps s values) :
      Lapped engine wakes loop spec s₀ (s, .ended (.ok (.arr values)))
  | cancelled {fault : Fault} {s : RunState} (cancels : fault.isCancelled = true) :
      Lapped engine wakes loop spec s₀ (s, .ended (.error fault))

/-- A lap whose body has come to something leads to where the laps after it may lead. -/
theorem lapped_goOnLoop_of {remaining : Nat}
    (next : ∀ laps s, Laps engine wakes loop spec s₀ laps s → laps.isEmpty = false →
      (∀ lap ∈ laps, lap.Passes spec) → laps.length + remaining = maxRounds engine spec →
      Lapped engine wakes loop spec s₀
        (rounds loop spec (fun s => startAll engine [] s loop.children) remaining false
          (laps.map Lap.entry) s))
    (ran : Laps engine wakes loop spec s₀ laps s) (enters : Enters engine spec laps s)
    (count : laps.length + 1 + remaining = maxRounds engine spec) {p : RunState × Course}
    (body : Stepped engine wakes loop.children (armed loop laps s) p) :
    Lapped engine wakes loop spec s₀
      (goOnLoop engine loop spec remaining (laps.map Lap.entry) p) := by
  obtain ⟨s', course⟩ := p
  cases course with
  | waiting done current rest =>
    cases body with
    | waits walk execution => exact .waits ran enters count walk execution
  | ended outcome =>
    have more := ran.runs enters body
    -- If the loop goes on, it does so with the entry of this lap behind the others.
    have goes (passes : Lap.Passes spec ⟨s, armed loop laps s, outcome⟩)
        (after : afterRound spec (laps.map Lap.entry) outcome =
          .inr (laps.map Lap.entry ++ [Lap.entry ⟨s, armed loop laps s, outcome⟩])) :
        Lapped engine wakes loop spec s₀
          (goOnLoop engine loop spec remaining (laps.map Lap.entry) (s', .ended outcome)) := by
      simp only [goOnLoop, after]
      rw [← List.map_singleton, ← List.map_append]
      refine next _ _ more (by simp) (fun lap member => ?_) ?_
      · rcases List.mem_append.1 member with member | member
        · exact enters.passed lap member
        · rw [List.mem_singleton.1 member]
          exact passes
      · rw [List.length_append, List.length_singleton, count]
    cases outcome with
    | ok values => exact goes trivial rfl
    | error fault =>
      by_cases cancels : fault.isCancelled = true
      · simp only [goOnLoop, afterRound, cancels, if_true]
        exact .cancelled cancels
      · have plain : fault.isCancelled = false := eq_false_of_ne_true cancels
        by_cases breaks : spec.breakOnError = true
        · simp only [goOnLoop, afterRound, plain, breaks, if_true, Bool.false_eq_true, if_false]
          exact .halts more (.broken enters.passed rfl plain breaks)
        · have goesOn : spec.breakOnError = false := eq_false_of_ne_true breaks
          refine goes ⟨plain, goesOn⟩ ?_
          simp [afterRound, plain, goesOn, Lap.entry]

/-- A loop with room for another lap goes on with its body if the condition holds. -/
theorem rounds_of_holds {remaining : Nat} {first : Bool} {finished : List Json}
    (live : s.context.cancelled = false) (holds : s.holds spec.condition = true) :
    rounds loop spec (fun s => startAll engine [] s loop.children) (remaining + 1) first finished s =
      goOnLoop engine loop spec remaining finished
        (startAll engine [] (if first then s else s.rearm loop.children) loop.children) := by
  rw [rounds, if_neg (ne_true_of_eq_false live), holds]
  rfl

/-- A loop goes on lap by lap from the rounds that it may still have. -/
theorem lapped_rounds (remaining : Nat) (ran : Laps engine wakes loop spec s₀ laps s)
    (passed : ∀ lap ∈ laps, lap.Passes spec)
    (count : laps.length + remaining = maxRounds engine spec) :
    Lapped engine wakes loop spec s₀
      (rounds loop spec (fun s => startAll engine [] s loop.children) remaining laps.isEmpty
        (laps.map Lap.entry) s) := by
  induction remaining generalizing laps s with
  | zero => exact .halts ran (.spent passed count)
  | succ remaining ih =>
    have room : laps.length < maxRounds engine spec := by omega
    by_cases dead : s.context.cancelled = true
    · rw [rounds, if_pos dead]
      exact .cancelled rfl
    · have live : s.context.cancelled = false := eq_false_of_ne_true dead
      cases holds : s.holds spec.condition with
      | false =>
        rw [rounds, if_neg dead, holds]
        exact .halts ran (.unmet passed room live holds)
      | true =>
        have enters : Enters engine spec laps s := ⟨passed, room, live, holds⟩
        rw [rounds_of_holds live holds]
        refine lapped_goOnLoop_of (fun laps s ran some passed count => ?_) ran enters (by omega)
          (stepped_startAll .sets)
        have more := ih ran passed count
        rwa [some] at more

/-- So does a loop in the middle of a lap. -/
theorem lapped_goOnLoop {remaining : Nat} (ran : Laps engine wakes loop spec s₀ laps s)
    (enters : Enters engine spec laps s)
    (count : laps.length + 1 + remaining = maxRounds engine spec) {p : RunState × Course}
    (body : Stepped engine wakes loop.children (armed loop laps s) p) :
    Lapped engine wakes loop spec s₀
      (goOnLoop engine loop spec remaining (laps.map Lap.entry) p) := by
  refine lapped_goOnLoop_of (fun laps s ran some passed count => ?_) ran enters count body
  have more := lapped_rounds remaining ran passed count
  rwa [some] at more

/-- An execution of a loop is in its laps, and its end is recorded. -/
theorem Execution.lapped {p : RunState × Progress} (h : Execution engine wakes loop s₀ p)
    (waking : Waking wakes) (kind : loop.kind = .loop spec)
    (live : s₀.context.cancelled = false) :
    ∃ q, Lapped engine wakes loop spec s₀ q ∧ p = close loop q := by
  induction h with
  | starts =>
    rw [start_eq, if_neg (ne_true_of_eq_false live)]
    refine ⟨_, ?_, rfl⟩
    simp only [work, kind]
    exact lapped_rounds _ .sets (fun _ member => absurd member List.not_mem_nil) (Nat.zero_add _)
  | @goesOn s s' activity ticket before aside held awake ih =>
    obtain ⟨q, lapped, same⟩ := ih
    rw [eq_of_close_waiting same] at lapped
    cases lapped with
    | @waits laps remaining done child rest current s₁ s₂ _ ran enters count walk execution =>
      obtain ⟨earlier, split, -⟩ := walk.split
      have member : child ∈ loop.children := by
        rw [split]
        exact List.mem_append_right _ List.mem_cons_self
      have below : Aside child.ids s s' := aside.mono (Node.ids_child_subset member)
      have inside : current.Inside
          (.loop loop spec remaining (laps.map Lap.entry) done current rest) := .loop .self
      have goes : Execution engine wakes child s₂ (resume engine ticket s' current) :=
        .goesOn execution below held (waking.inherited inside awake)
      exact ⟨_, lapped_goOnLoop ran enters count (stepped_andThen walk goes), resume_eq held⟩

/-- A node that is started once the run is cancelled fails at once. -/
theorem Execution.fails_of_dead {node : Node} {p : RunState × Progress}
    (h : Execution engine wakes node s₀ p) (dead : s₀.context.cancelled = true) :
    ∃ fault, p.2 = .ended (.error fault) := by
  induction h with
  | starts =>
    rw [start_eq, if_pos dead]
    exact ⟨_, rfl⟩
  | goesOn _ _ _ _ ih =>
    obtain ⟨fault, ended⟩ := ih
    cases ended

end

variable {root loop : Node} {spec : LoopSpec}

/-- Every loop for which a run waits is in an execution, and nothing in the tree of a loop has begun
when a run tells that the loop starts. An execution that begins so and ends well is laps that have
come to a halt: no more than there may be, the condition holds before each, all of the body is
pending when it begins, and the value has the entries of the laps in turn. -/
theorem loop_lapped (engine : Engine) (distinct : root.ids.Nodup) (member : loop ∈ root.preorder)
    (kind : loop.kind = .loop spec) :
    (∀ {limit : Option Duration} {s₀ s : RunState} {stage : Stage}, s₀.context.Untouched root →
      Reaches engine root limit s₀ (s, stage) → Changes root .deaf root.ids s₀ s ∧
        ∀ activity bound part, stage = .active activity bound → part.Inside activity →
          part.node = loop → Executes engine Anytime s part) ∧
    (∀ {s₀ s s' : RunState} {told : List Event} {nodeType : NodeType},
      s₀.context.Untouched root → Changes root .deaf root.ids s₀ s →
      Change root .deaf root.ids s s' → s.world.Tells s'.world told →
      .nodeStarted loop.id nodeType ∈ told →
      s.context.Untouched loop) ∧
    ∀ {wakes : Wakes} {s₀ s : RunState} {out : Json}, Waking wakes → s₀.context.Untouched loop →
      Execution engine wakes loop s₀ (s, .ended (.ok out)) →
      ∃ laps values s', Laps engine wakes loop spec s₀ laps s' ∧ Halts engine spec laps s' values ∧
        out = .arr values ∧ s = s'.record loop.id (.ok out) ∧
        laps.length ≤ maxRounds engine spec ∧
        ∀ lap ∈ laps, lap.look.context.cancelled = false ∧
          lap.look.holds spec.condition = true ∧
          (∀ id ∈ Node.idsAll loop.children, lap.start.context.phase id = .pending) ∧
          ∀ each, lap.outcome = .ok each → each.length = loop.children.length := by
  refine ⟨fun untouched reached => ⟨(reached.kept untouched distinct).changes, ?_⟩, ?_, ?_⟩
  · rintro activity bound part rfl inside -
    exact reached.executes untouched distinct part inside
  · intro s₀ s s' told nodeType untouched changes change tells started
    have downward := changes.downward distinct (.of_untouched untouched)
    exact downward.untouched member (change.alters.pending_of_started tells started)
  · intro wakes s₀ s out waking untouched h
    have own : loop.ids.Nodup := Node.nodup_ids_of_mem_preorder distinct member
    have live : s₀.context.cancelled = false := by
      refine eq_false_of_ne_true fun dead => ?_
      obtain ⟨fault, failed⟩ := h.fails_of_dead dead
      cases failed
    obtain ⟨q, lapped, same⟩ := h.lapped waking kind live
    cases lapped with
    | waits => cases same
    | cancelled => cases same
    | @halts laps values s' ran halted =>
      cases same
      refine ⟨laps, values, s', ran, halted, rfl, rfl, ran.length_le, ?_⟩
      exact ran.each fun earlier enters body => ⟨enters.live, enters.holds,
        earlier.pending untouched own, fun each same => by
          cases same
          exact body.length_eq⟩

/-- Two laps at most. -/
def twoLaps : LoopSpec := ⟨"x", some 2, false⟩

/-- A task without parameters. -/
def chore : TaskSpec := ⟨"work", [], [], 0, none, none⟩

/-- A task that is the whole body of a loop. -/
def verse : Node := .make "verse" (.task chore) []

/-- A loop over one task. -/
def refrain : Node := .make "refrain" (.loop twoLaps) [verse]

/-- A run in which the condition of the loop holds. -/
def tuned : RunState := ⟨.empty, .fresh "workflow" "execution" [("x", .bool true)]⟩

/-- The loop is in tune while its variable says so. -/
theorem holds_tuned {s : RunState} (same : s.context.bindings = tuned.context.bindings) :
    s.holds twoLaps.condition = true := by
  rw [RunState.holds, Context.scope, same, Condition.succeeds, Condition.evaluate, twoLaps,
    compile_name]
  rfl

/-- The task waits for its answer. -/
def atWork (ticket due : Nat) : Activity :=
  .calling verse chore ⟨"work", [], []⟩ 0 ⟨5, [], .ok (.str "done"), []⟩ ticket due none

/-- The loop waits for it in a lap, after others. -/
def midLap (remaining : Nat) (finished : List Json) (ticket due : Nat) : Activity :=
  .loop refrain twoLaps remaining finished [] (atWork ticket due) []

/-- The run goes on, with its variables as they were, at some time and with so many tickets taken.
-/
structure InTune (tickets time : Nat) (s : RunState) : Prop where
  live : s.context.cancelled = false
  bindings : s.context.bindings = tuned.context.bindings
  taken : s.world.tickets = tickets
  now : s.now = time

/-- A round of the refrain waits for its only task. -/
theorem rounds_refrain {s : RunState} {tickets time : Nat} (h : InTune tickets time s)
    (remaining : Nat) (first : Bool) (finished : List Json) :
    ∃ t, InTune (tickets + 1) time t ∧
      rounds refrain twoLaps (fun s => startAll brisk [] s refrain.children) (remaining + 1) first
        finished s = (t, .waiting (midLap remaining finished tickets (time + 5))) := by
  have ready : ∃ s', (if first then s else s.rearm refrain.children) = s' ∧
      InTune tickets time s' := by
    cases first with
    | true => exact ⟨s, rfl, h⟩
    | false => exact ⟨_, rfl, h.live, h.bindings, h.taken, h.now⟩
  obtain ⟨s', armed, ready⟩ := ready
  have begun : startAll brisk [] s' refrain.children =
      ((((s'.startNode verse).place brisk "verse" ⟨"work", [], []⟩).2.defer []).takeTicket.2,
        .waiting [] (atWork s'.world.tickets (s'.now + 5)) []) := by
    change startAll brisk [] s' [verse] = _
    rw [startAll, start_eq, if_neg (ne_true_of_eq_false ready.live)]
    rfl
  rw [rounds_of_holds h.live (holds_tuned h.bindings), armed, begun, ready.taken, ready.now]
  refine ⟨_, ?_, rfl⟩
  exact ⟨ready.live, ready.bindings, congrArg (· + 1) ready.taken, ready.now⟩

/-- The refrain starts with its first round. -/
theorem start_refrain : ∃ t, InTune 1 0 t ∧
    start brisk tuned refrain = (t, .waiting (midLap 1 [] 0 5)) := by
  have live : tuned.context.cancelled = false := rfl
  have ready : InTune 0 0 (tuned.startNode refrain) := ⟨rfl, rfl, rfl, rfl⟩
  obtain ⟨t, inTune, waits⟩ := rounds_refrain ready 1 true []
  refine ⟨t, inTune, ?_⟩
  rw [start_eq, if_neg (ne_true_of_eq_false live)]
  exact congrArg (close refrain) waits

/-- When its task has been answered the refrain goes on with the next round. -/
theorem resume_refrain {s : RunState} {tickets time : Nat} (h : InTune tickets time s)
    (remaining : Nat) (finished : List Json) (ticket due : Nat) :
    ∃ t, InTune tickets time t ∧
      resume brisk ⟨ticket, false⟩ s (midLap remaining finished ticket due) =
        close refrain (rounds refrain twoLaps (fun s => startAll brisk [] s refrain.children)
          remaining false (finished ++ [.arr [.str "done"]]) t) := by
  have reply : resume brisk ⟨ticket, false⟩ s (atWork ticket due) =
      (s.record "verse" (.ok (.str "done")), .ended (.ok (.str "done"))) := by
    rw [atWork, resume, if_pos rfl, answered, if_neg (by simp)]
    unfold settle
    exact congrArg (close verse) (if_neg (ne_true_of_eq_false h.live))
  have same : (s.record "verse" (.ok (.str "done"))).context.bindings = s.context.bindings := by
    rw [RunState.record]
    split <;> next finished =>
      have same := congrArg Prod.snd finished
      subst same
      rfl
  refine ⟨_, ⟨(s.cancelled_record "verse" _).trans h.live, same.trans h.bindings,
    (s.tickets_record "verse" _).trans h.taken, (s.now_record "verse" _).trans h.now⟩, ?_⟩
  rw [midLap, resume, reply]
  rfl

/-- The refrain has two laps, each with the value of its verse. -/
theorem loop_lapped_refrain : refrain.ids.Nodup ∧ refrain ∈ refrain.preorder ∧
    refrain.kind = .loop twoLaps ∧ tuned.context.Untouched refrain ∧
    (∃ s activity, Reaches brisk refrain none tuned (s, .active activity none) ∧
      Executes brisk Anytime s activity) ∧
    (∃ s s' told, Changes refrain .deaf refrain.ids tuned s ∧
      Change refrain .deaf refrain.ids s s' ∧ s.world.Tells s'.world told ∧ .nodeStarted "refrain" .loop ∈ told ∧
      s.context.Untouched refrain) ∧
    ∃ s laps values s',
      Execution brisk OnTime refrain tuned
        (s, .ended (.ok (.arr [.arr [.str "done"], .arr [.str "done"]]))) ∧
      Laps brisk OnTime refrain twoLaps tuned laps s' ∧ Halts brisk twoLaps laps s' values ∧
      values = [.arr [.str "done"], .arr [.str "done"]] ∧
      laps.length ≤ maxRounds brisk twoLaps ∧
      ∀ lap ∈ laps, ∀ id ∈ Node.idsAll refrain.children, lap.start.context.phase id = .pending := by
  have distinct : refrain.ids.Nodup := by decide
  have member : refrain ∈ refrain.preorder := refrain.mem_preorder_self
  have untouched : tuned.context.Untouched refrain := fun _ _ => rfl
  have lapped := loop_lapped brisk distinct member rfl
  have awake {s : RunState} {ticket due remaining : Nat} {finished : List Json} (now : s.now = due) :
      OnTime s (midLap remaining finished ticket due) ticket := by
    intro _ timer inside _
    rw [List.mem_singleton.1 inside]
    exact now.symm
  have passes {s : RunState} {tickets time : Nat} (h : InTune tickets time s) (due : Nat)
      (soon : time ≤ due) : InTune tickets due (later s due) :=
    ⟨h.live, h.bindings, h.taken, (congrArg (max · due) h.now).trans (Nat.max_eq_right soon)⟩
  -- the two laps, and the end
  obtain ⟨t₁, first, started⟩ := start_refrain
  obtain ⟨s₁, sung, resumed⟩ := resume_refrain (passes first 5 (by decide)) (0 + 1) [] 0 5
  obtain ⟨t₂, second, again⟩ := rounds_refrain sung 0 false [.arr [.str "done"]]
  obtain ⟨s₂, -, ended⟩ :=
    resume_refrain (passes second 10 (by decide)) 0 [.arr [.str "done"]] 1 10
  have begun : Execution brisk OnTime refrain tuned (start brisk tuned refrain) := .starts
  rw [started] at begun
  have next := @Execution.goesOn _ _ _ _ _ _ _ ⟨0, false⟩ begun (.later _ _ 5) List.mem_cons_self
    (awake (passes first 5 (by decide)).now)
  rw [resumed, List.nil_append, again] at next
  have last := @Execution.goesOn _ _ _ _ _ _ _ ⟨1, false⟩ next (.later _ _ 10) List.mem_cons_self
    (awake (passes second 10 (by decide)).now)
  rw [ended] at last
  have launched : launch brisk refrain none tuned = (t₁.flush, .active (midLap 1 [] 0 5) none) := by
    rw [launch, started]
    rfl
  have reached : Reaches brisk refrain none tuned (t₁.flush, .active (midLap 1 [] 0 5) none) := by
    rw [← launched]
    exact .refl
  have starts : Change refrain .deaf refrain.ids tuned (tuned.startNode refrain) :=
    change_startNode member refrain.mem_ids_self rfl (.inl rfl)
  have tells : tuned.world.Tells (tuned.startNode refrain).world [.nodeStarted "refrain" .loop] :=
    World.tells_emit _ _
  obtain ⟨laps, values, s', ran, halted, same, -, most, each⟩ :=
    lapped.2.2 waking_onTime untouched last
  refine ⟨distinct, member, rfl, untouched, ⟨_, _, reached, ?_⟩, ⟨_, _, _, .refl, starts, tells,
    List.mem_cons_self, ?_⟩, _, laps, values, s', last, ran, halted, (Json.arr.inj same).symm, most,
    fun lap member => (each lap member).2.2.1⟩
  · exact (lapped.1 untouched reached).2 _ _ _ rfl .self rfl
  · exact lapped.2.1 untouched .refl starts tells List.mem_cons_self

end Stepwise.Run

import Stepwise.Proofs.Run.Everywhere
import Stepwise.Proofs.Run.Herald
import Stepwise.Proofs.Run.Race

/-!
# Verdicts

A parallel block ends as the arrivals in its race decide (`block_judged`). Whoever has not arrived
by then is stopped: what runs in their trees is cancelled and all else in them stays as it is.
However the run goes on after that, be it in the same step, no call is made in the name of any node
below the block unless it starts again.
-/

namespace Stepwise.Run

variable {root block : Node} {spec : ParallelSpec} {s : RunState}
  {nodes : List Node}

/-- From one state to another some trees are stopped. -/
structure Stopped (nodes : List Node) (s s' : RunState) : Prop where
  /-- What runs is cancelled, and has the value of a cancelled node. -/
  cancelled : ∀ id ∈ Node.idsAll nodes, s.context.state id = .running →
    s'.context.state id = .cancelled ∧
      (s'.context.phase id).result? = some (s.context.cancelledValue id) ∧
      s'.context.results.find? id = some (s.context.cancelledValue id)
  /-- What does not run stays as it is. -/
  kept : ∀ id ∈ Node.idsAll nodes, s.context.state id ≠ .running →
    s'.context.phase id = s.context.phase id ∧
      s'.context.results.find? id = s.context.results.find? id
  calls : s'.world.calls = s.world.calls

/-- Trees are stopped when they are swept before a node outside them ends. -/
theorem stopped_sweep {top : String} (outside : top ∉ Node.idsAll nodes)
    (outcome : Except Fault Json) : Stopped nodes s ((s.sweep nodes).record top outcome) := by
  have phase {id : String} (member : id ∈ Node.idsAll nodes) :
      ((s.sweep nodes).record top outcome).context.phase id = s.context.halted s.now id := by
    rw [RunState.phase_record, if_neg (ne_of_mem_of_not_mem member outside).symm,
      RunState.phase_sweep, if_pos member]
  have result {id : String} (member : id ∈ Node.idsAll nodes) :
      ((s.sweep nodes).record top outcome).context.results.find? id =
        (s.sweep nodes).context.results.find? id :=
    RunState.results_record_of_ne _ (ne_of_mem_of_not_mem member outside).symm outcome
  refine ⟨fun id member runs => ⟨?_, ?_, ?_⟩, fun id member idle => ⟨?_, ?_⟩, ?_⟩
  · rw [Context.state, phase member, Context.state_halted, if_pos runs]
  · rw [phase member]
    exact Phase.result?_finish runs _ _ _
  · rw [result member, RunState.results_sweep, if_pos ⟨member, runs⟩]
  · rw [phase member, Context.halted_of_ne _ idle]
  · rw [result member, RunState.results_sweep, if_neg fun both => idle both.2]
  · rw [RunState.calls_record, RunState.calls_sweep]

/-- When the activity of a node ends in a step of a run, from then on no call is made in the name of
any node below it that is not told to have started, neither in the same step nor later. -/
theorem silent_of_ended {engine : Engine} {activity part : Activity} {bound : Option TimeLimit}
    {bell : Bell} {s₁ : RunState} {outcome : Except Fault Json} {q : RunState × Stage} {id : String}
    (sound : Sound root s (.active activity bound)) (distinct : root.ids.Nodup)
    (inside : part.Inside activity) (held : bell.ticket ∈ part.tickets)
    (ends : resume engine bell s part = (s₁, .ended outcome))
    (leads : Leads engine .deaf (step engine s (.active activity bound) (.wake bell)) q)
    (below : id ∈ Node.idsAll part.node.children) : Heralded id s₁ q.1 q.2.current? := by
  have sound' : Sound root (step engine s (.active activity bound) (.wake bell)).1
      (step engine s (.active activity bound) (.wake bell)).2 := sound_step sound distinct _
  refine Leads.heralded leads sound' distinct (heralded_ofProgress bound ?_)
  cases sound with
  | active fits alive own given =>
    -- In place of the part that has ended there is nothing of its children.
    obtain ⟨after, swaps⟩ := Activity.Swaps.exists_of_inside inside
      (.parallel part.node .standard [] [] none none)
    have other : part.node.id ≠ id := by
      rintro rfl
      have within := Node.nodup_ids_of_mem_preorder distinct (inside.fits fits).1
      exact Node.id_notMem_children within below
    have without : after.Without id := fits.without distinct swaps
      (part.node.idsAll_children_subset below) (without_parallel other fun _ _ => nofun)
    refine heralded_around swaps without held own ?_
    rw [ends]
    exact .refl id s₁

/-- Every block for which a run waits is in an execution, and one that ends has come to what the
arrivals in its race decide, with whoever has not arrived stopped. However the run goes on then, no
call is made in the name of any node below the block before it is told to have started again. -/
theorem block_judged (engine : Engine) (distinct : root.ids.Nodup)
    (member : block ∈ root.preorder) (kind : block.kind = .parallel spec) :
    (∀ {limit : Option Duration} {s₀ s : RunState} {activity part : Activity}
      {bound : Option TimeLimit}, s₀.context.Untouched root →
      Reaches engine root limit s₀ (s, .active activity bound) → part.Inside activity →
      part.node = block → Executes engine Anytime s part) ∧
    (∀ {wakes : Wakes} {s₀ s : RunState} {outcome : Except Fault Json},
      s₀.context.cancelled = false → Execution engine wakes block s₀ (s, .ended outcome) →
      ∃ arrivals running waiting s',
        Race engine block s₀ arrivals running waiting s' ∧
        Decides spec block.children arrivals outcome ∧
        (arrivals.map Arrival.child ++ (running.map Prod.fst ++ waiting)).Perm block.children ∧
        Stopped (running.map Prod.fst ++ waiting) s' s) ∧
    ∀ {limit : Option Duration} {s₀ s s₁ : RunState} {activity part : Activity}
      {bound : Option TimeLimit} {time : Nat} {bell : Bell} {outcome : Except Fault Json}
      {q : RunState × Stage} {id : String}, s₀.context.Untouched root →
      Reaches engine root limit s₀ (s, .active activity bound) → part.Inside activity →
      part.node = block → bell.ticket ∈ part.tickets →
      resume engine bell (later s time) part = (s₁, .ended outcome) →
      Leads engine .deaf (step engine (later s time) (.active activity bound) (.wake bell)) q →
      id ∈ Node.idsAll block.children →
      ∃ events made, s₁.world.Tells q.1.world events ∧
        q.1.world.calls = s₁.world.calls ++ made ∧
        ((∀ nodeType, .nodeStarted id nodeType ∉ events) → ∀ entry ∈ made, entry.caller ≠ id) := by
  refine ⟨fun untouched reached inside _ => ?_, fun {wakes s₀ s outcome} live h => ?_, ?_⟩
  · exact reached.executes untouched distinct _ inside
  · have own : block.ids.Nodup := Node.nodup_ids_of_mem_preorder distinct member
    obtain ⟨q, raced, same⟩ := h.raced kind live own
    cases raced with
    | waits => cases same
    | @decided arrivals running waiting outcome s' race decides =>
      cases same
      have perm := race.perm
      refine ⟨arrivals, running, waiting, s', race, decides, perm, stopped_sweep ?_ outcome⟩
      intro inside
      obtain ⟨child, hchild, inside⟩ := Node.mem_idsAll.1 inside
      have below : child ∈ block.children := perm.subset (List.mem_append_right _ hchild)
      exact Node.id_notMem_children own (Node.idsAll_subset below inside)
  · rintro limit s₀ s s₁ activity part bound time bell outcome q id untouched reached inside rfl
      held ends leads below
    have sound := (reached.sound untouched distinct).later time
    obtain ⟨events, made, tells, calls, silent⟩ :=
      silent_of_ended sound distinct inside held ends leads below
    exact ⟨events, made, tells, calls, fun unstarted => (silent unstarted).1⟩

/-! ## The first of two -/

/-- An engine whose tasks are done after five milliseconds. -/
def brisk : Engine := ⟨fun _ _ => ⟨5, [], .ok (.str "done"), []⟩, .standard⟩

/-- A block that is content with the first success. -/
def anyOne : ParallelSpec := { ParallelSpec.standard with waitForAll := false }

/-- Two tasks, of which one is enough. -/
def rivals : Node :=
  let task (id : String) : Node := .make id (.task ⟨"work", [], [], 0, none, none⟩) []
  .make "rivals" (.parallel anyOne) [task "first", task "second"]

/-- Both tasks wait for their answers. -/
def racing : RunState × Stage :=
  let alone := step brisk (launch brisk rivals none outset).1 (launch brisk rivals none outset).2
    (.wake ⟨0, false⟩)
  step brisk alone.1 alone.2 (.wake ⟨2, false⟩)

/-- Both rivals are called before either has answered. -/
theorem reaches_racing : Reaches brisk rivals none outset racing :=
  (Relation.ReflTransGen.single (.any brisk _ _ 0 (.wake ⟨0, false⟩))).tail
    (.any brisk _ _ 0 (.wake ⟨2, false⟩))

/-- The rival that answers first decides their block, and the other is cancelled. -/
theorem block_judged_rivals : rivals.ids.Nodup ∧ rivals ∈ rivals.preorder ∧
    rivals.kind = .parallel anyOne ∧ outset.context.Untouched rivals ∧
    outset.context.cancelled = false ∧
    (∃ s activity, Reaches brisk rivals none outset (s, .active activity none) ∧
      Executes brisk Anytime s activity) ∧
    (∃ s arrivals running waiting s',
      Execution brisk OnTime rivals outset (s, .ended (.ok (.arr [.str "done", .null]))) ∧
      s.context.state "second" = .cancelled ∧
      Race brisk rivals outset arrivals running waiting s' ∧
      Decides anyOne rivals.children arrivals (.ok (.arr [.str "done", .null])) ∧
      (arrivals.map Arrival.child ++ (running.map Prod.fst ++ waiting)).Perm rivals.children ∧
      Stopped (running.map Prod.fst ++ waiting) s' s) ∧
    ∃ s activity s₁ q events made, Reaches brisk rivals none outset (s, .active activity none) ∧
      resume brisk ⟨1, false⟩ (later s 5) activity =
        (s₁, .ended (.ok (.arr [.str "done", .null]))) ∧
      Leads brisk .deaf (step brisk (later s 5) (.active activity none) (.wake ⟨1, false⟩)) q ∧
      s₁.world.Tells q.1.world events ∧ q.1.world.calls = s₁.world.calls ++ made ∧
      ((∀ nodeType, .nodeStarted "second" nodeType ∉ events) →
        ∀ entry ∈ made, entry.caller ≠ "second") := by
  have distinct : rivals.ids.Nodup := by decide
  have member : rivals ∈ rivals.preorder := rivals.mem_preorder_self
  have untouched : outset.context.Untouched rivals := fun _ _ => rfl
  have judged := block_judged brisk distinct member rfl
  have due {s : RunState} {activity : Activity} {ticket : Nat} (timers : List Timer) (time : Nat)
      (waits : activity.timers = timers) (now : s.now = time)
      (only : ∀ timer ∈ timers, timer.ticket = ticket → timer.due = time) :
      OnTime s activity ticket :=
    fun _ timer among own => (only timer (waits ▸ among) own).trans now.symm
  have begun : Execution brisk OnTime rivals outset (start brisk outset rivals) := .starts
  have first := @Execution.goesOn _ _ _ _ _ _ _ ⟨0, false⟩ begun (.refl _ _) (by decide)
    (due [] 0 rfl rfl (by decide))
  have second := @Execution.goesOn _ _ _ _ _ _ _ ⟨2, false⟩ first (.refl _ _) (by decide)
    (due [⟨5, 1⟩] 0 rfl rfl (by decide))
  have ended := @Execution.goesOn _ _ _ _ _ _ _ ⟨1, false⟩ second (.later _ _ 5) (by decide)
    (due [⟨5, 1⟩, ⟨5, 3⟩] 5 rfl rfl (by decide))
  obtain ⟨arrivals, running, waiting, s', race, decides, perm, stopped⟩ :=
    judged.2.1 rfl ended
  have quiet := @judged.2.2
  obtain ⟨events, made, tells, calls, silent⟩ := @quiet _ _ _ _ _ _ _ 5 ⟨1, false⟩ _ _ "second"
    untouched reaches_racing .self rfl (by decide) rfl .refl (by decide)
  exact ⟨distinct, member, rfl, untouched, rfl,
    ⟨_, _, reaches_racing, judged.1 untouched reaches_racing .self rfl⟩,
    ⟨_, arrivals, running, waiting, s', ended, rfl, race, decides, perm, stopped⟩,
    _, _, _, _, events, made, reaches_racing, rfl, .refl, tells, calls, silent⟩

end Stepwise.Run

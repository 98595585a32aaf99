import Stepwise.Proofs.Run.Upcoming

/-!
# Cancelled runs

From the moment at which a run is cancelled it makes no call, and each of its nodes stays as it is
unless it is cancelled as well. It ends as a cancelled run, or with its time limit, and whatever
it still waits for ends it. This holds wherever the cancellation comes from: the outside, an answer
that is given at once, or one that a task has waited for.
-/

namespace Stepwise

/-- Nothing has gone on since: each node is as it was, or it ran and has been cancelled. -/
def Context.Still (context later : Context) : Prop :=
  ∀ id, later.phase id = context.phase id ∨
    context.state id = .running ∧ later.state id = .cancelled

namespace Context.Still

variable {context middle later : Context}

/-- Nodes of which nothing is changed are still. -/
theorem refl (context : Context) : context.Still context := fun _ => .inl rfl

theorem trans (first : context.Still middle) (second : middle.Still later) :
    context.Still later := by
  intro id
  rcases first id with same | ⟨running, cancelled⟩
  · rcases second id with same' | ⟨running, cancelled⟩
    · exact .inl (same'.trans same)
    · exact .inr ⟨(congrArg Phase.state same).symm.trans running, cancelled⟩
  · rcases second id with same' | ⟨running', -⟩
    · exact .inr ⟨running, (congrArg Phase.state same').trans cancelled⟩
    · rw [cancelled] at running'
      cases running'

/-- Some nodes are halted and the others stay as they are. -/
theorem of_halted (now : Nat)
    (h : ∀ id, later.phase id = context.phase id ∨ later.phase id = context.halted now id) :
    context.Still later := by
  intro id
  rcases h id with same | halted
  · exact .inl same
  · by_cases running : context.state id = .running
    · refine .inr ⟨running, ?_⟩
      rw [state, halted, state_halted, if_pos running]
    · exact .inl (halted.trans (context.halted_of_ne running now))

end Context.Still

/-- Whatever a call does, no node begins or ends well by it. -/
theorem RunState.still_applyAll (s : RunState) (effects : List Effect) :
    s.context.Still (s.applyAll effects).context := by
  rcases s.phase_applyAll effects with same | ⟨-, halted⟩
  · exact fun id => .inl (same id)
  · exact .of_halted s.now fun id => .inr (halted id)

/-- A run does no more than an act of a cancelled run may do that heeds the cancellation. -/
theorem Act.ceases {engine : Engine} {manner : Manner} {ids : List String} {s s' : RunState}
    (act : Act engine manner ids s s') (heeding : manner ≠ .deaf)
    (dead : s.context.cancelled = true) :
    s'.world.calls = s.world.calls ∧ s.context.Still s'.context := by
  have impossible {P : Prop} (live : s.context.cancelled = false) : P := by
    rw [dead] at live
    cases live
  cases act with
  | begin live => exact impossible live
  | call live => exact impossible live
  | callLater _ live => exact impossible live
  | stray deaf => exact absurd deaf heeding
  | retry live => exact impossible live
  | rearm live => exact impossible live
  | list => exact ⟨rfl, fun id => .inl (s.phase_touch _ id)⟩
  | wait | note => exact ⟨rfl, .refl _⟩
  | affect effects => exact ⟨s.calls_applyAll effects, s.still_applyAll effects⟩
  | @record id outcome heeds member =>
    refine ⟨s.calls_record id outcome, .of_halted s.now fun other => ?_⟩
    rw [dead] at heeds
    cases outcome with
    | ok value => cases heeds
    | error fault =>
      have hfault : fault.isCancelled = true := heeds
      rw [s.phase_record id other]
      split
      · next same =>
        right
        rw [RunState.closed, if_pos hfault, same]
      · exact .inl rfl
  | sweep members =>
    refine ⟨s.calls_sweep _, .of_halted s.now fun id => ?_⟩
    rw [s.phase_sweep _ id]
    split
    · exact .inr rfl
    · exact .inl rfl

/-- Acts on a cancelled run make no call and begin nothing, unless they are deaf. -/
theorem Acts.ceases {engine : Engine} {manner : Manner} {ids : List String} {s s' : RunState}
    (acts : Acts engine manner ids s s') (heeding : manner ≠ .deaf)
    (dead : s.context.cancelled = true) :
    s'.world.calls = s.world.calls ∧ s.context.Still s'.context := by
  induction acts with
  | refl => exact ⟨rfl, .refl _⟩
  | @tail middle last before act ih =>
    obtain ⟨calls, still⟩ := act.ceases heeding (Acts.cancelled before dead)
    exact ⟨calls.trans ih.1, ih.2.trans still⟩

namespace Run

variable {engine : Engine} {root : Node} {limit : Option Duration} {s₀ s : RunState}
  {calls : List CallEntry} {context : Context} {p q : RunState × Stage}

/-- A run has been cancelled since some calls were made and its nodes were in some state, and
nothing has begun from then on. If the run has ended, then as a cancelled one or with its time
limit. -/
structure Ceased (calls : List CallEntry) (context : Context) (p : RunState × Stage) : Prop where
  cancelled : p.1.context.cancelled = true
  calls : p.1.world.calls = calls
  still : context.Still p.1.context
  outcome : ∀ outcome, p.2 = .ended outcome → Cancelled outcome

/-- A run that was cancelled ends as a cancelled one. -/
theorem Sound.outcome {stage : Stage} (h : Sound root s stage) (dead : s.context.cancelled = true) :
    ∀ outcome, stage = .ended outcome → Cancelled outcome := by
  rintro outcome rfl
  cases h with
  | ended _ heeds => exact heeds dead

/-- Acts of a cancelled run that heeds the cancellation leave it ceased. -/
theorem ceased_of_acts (s : RunState) (dead : s.context.cancelled = true)
    (same : s.world.calls = calls) (still : context.Still s.context)
    (acts : Acts engine .heeding root.ids s p.1) (sound : Sound root p.1 p.2) :
    Ceased calls context p := by
  obtain ⟨calls', still'⟩ := acts.ceases Manner.noConfusion dead
  exact ⟨acts.cancelled dead, calls'.trans same, still.trans still',
    sound.outcome (acts.cancelled dead)⟩

/-- A run that has ceased stays so, whatever comes. -/
theorem Ceased.leads (ceased : Ceased calls context p) (sound : Sound root p.1 p.2)
    (distinct : root.ids.Nodup) (h : Leads engine .heeding p q) : Ceased calls context q := by
  induction h with
  | refl => exact ceased
  | tail before move ih =>
    have sound := Leads.sound before sound distinct
    obtain ⟨time, acts⟩ := move.acts Manner.noConfusion sound
    exact ceased_of_acts (later _ time) ih.cancelled ih.calls ih.still acts
      (move.sound sound distinct)

/-- A run that has ended makes no call, and its nodes stay as they are. -/
theorem Ceased.ended {outcome : Except Fault RunResult} (ceased : Ceased calls context p)
    (ended : p.2 = .ended outcome) {manner : Manner} (h : Leads engine manner p q) :
    Ceased calls context q ∧ q.2 = .ended outcome := by
  induction h with
  | refl => exact ⟨ceased, ended⟩
  | tail _ move ih =>
    obtain ⟨ceased, ended⟩ := ih
    cases move with
    | step s stage time stimulus =>
      obtain rfl : stage = .ended outcome := ended
      exact ⟨⟨ceased.cancelled, ceased.calls, ceased.still, ceased.outcome⟩, rfl⟩

/-! ## Where a cancellation comes from -/

/-- Of the calls of a run one that cancels the run as it begins is the last, and nothing has begun
since. -/
def LastCall (engine : Engine) (s₀ s : RunState) : Prop :=
  ∀ earlier entry rest, s.world.calls = earlier ++ entry :: rest →
    s₀.world.calls.length ≤ earlier.length →
    (engine.executor earlier entry).beginning.any (Effect.cancels entry.context.executionId) = true →
    rest = [] ∧ s.context.cancelled = true ∧ entry.context.Still s.context

namespace LastCall

variable {s' : RunState} {ids : List String}

/-- No call has been made yet. -/
theorem refl (engine : Engine) (s : RunState) : LastCall engine s s := by
  intro earlier entry rest split begun
  rw [split, List.length_append, List.length_cons] at begun
  omega

/-- It stays the last while no call is made. -/
theorem quiet (h : LastCall engine s₀ s) (same : s'.world.calls = s.world.calls)
    (kept : s.context.cancelled = true →
      s'.context.cancelled = true ∧ s.context.Still s'.context) : LastCall engine s₀ s' := by
  intro earlier entry rest split begun cancels
  rw [same] at split
  obtain ⟨last, dead, still⟩ := h earlier entry rest split begun cancels
  exact ⟨last, (kept dead).1, still.trans (kept dead).2⟩

/-- A call that is made is the last, and there was none that cancelled the run. -/
theorem call (h : LastCall engine s₀ s) (live : s.context.cancelled = false) {caller : String}
    {call : Call} (made : s'.world.calls = s.world.calls ++ [⟨caller, s.now, s.context, call⟩])
    (begins : (s.place engine caller call).1.beginning.any
      (Effect.cancels s.context.executionId) = true → s'.context.cancelled = true)
    (still : s.context.Still s'.context) : LastCall engine s₀ s' := by
  intro earlier entry rest split begun cancels
  rw [made] at split
  rcases List.eq_nil_or_concat rest with rfl | ⟨rest, last, rfl⟩
  · -- The call is the one that is made.
    obtain ⟨rfl, same⟩ := List.append_inj' split rfl
    obtain rfl := List.singleton_inj.1 same
    exact ⟨rfl, begins cancels, still⟩
  · -- The call is an earlier one, so no other can have been made.
    rw [List.concat_eq_append, ← List.cons_append, ← List.append_assoc] at split
    obtain ⟨before, -⟩ := List.append_inj' split rfl
    obtain ⟨-, dead, -⟩ := h earlier entry rest before begun cancels
    rw [live] at dead
    cases dead

/-- No act at once comes after a call that cancels the run. -/
theorem act (h : LastCall engine s₀ s) (act : Act engine .prompt ids s s') :
    LastCall engine s₀ s' := by
  have silent (same : s'.world.calls = s.world.calls) : LastCall engine s₀ s' :=
    h.quiet same fun dead => ⟨act.cancelled dead, (act.ceases Manner.noConfusion dead).2⟩
  cases act with
  | @call caller call live =>
    refine h.call live (RunState.calls_applyAll ..) (fun cancels => ?_)
      (RunState.still_applyAll (s.place engine caller call).2 _)
    rw [RunState.cancelled_applyAll]
    exact Bool.or_eq_true_iff.2 (.inr cancels)
  | callLater slow | note slow => exact absurd rfl slow
  | stray deaf => cases deaf
  | affect effects => exact silent (s.calls_applyAll effects)
  | record => exact silent (s.calls_record _ _)
  | sweep => exact silent (s.calls_sweep _)
  | list | begin | retry | wait | rearm => exact silent rfl

theorem acts (h : LastCall engine s₀ s) (acts : Acts engine .prompt ids s s') :
    LastCall engine s₀ s' := by
  induction acts with
  | refl => exact h
  | tail _ next ih => exact ih.act next

/-- A call whose answer the run waits for has done what it does as it begins when the step is
over. -/
theorem flush (h : LastCall engine s₀ s) (opens : Opens engine s s') :
    LastCall engine s₀ s'.flush := by
  obtain ⟨kept, called⟩ := opens.cases
  have still : s.context.Still s'.flush.context := by
    rw [← kept]
    exact RunState.still_applyAll { s' with world := { s'.world with openings := [] } } _
  rcases called with same | ⟨caller, call, live, later, made, openings⟩
  · refine h.quiet (s'.calls_flush.trans same) fun dead => ⟨?_, still⟩
    rw [s'.cancelled_flush, kept, dead, Bool.true_or]
  · refine h.call live (s'.calls_flush.trans made) (fun cancels => ?_) still
    rw [Reply.beginning, if_neg later] at cancels
    rw [s'.cancelled_flush, kept, openings, List.any_append, cancels, Bool.or_true, Bool.or_true]

/-- The end of a step does what was put off, and nothing after it. -/
theorem ofProgress (h : LastCall engine s₀ s) {p : RunState × Progress}
    (advance : Advances engine ids s p) (timeLimit : Option TimeLimit) :
    LastCall engine s₀ (Run.ofProgress timeLimit p).1 := by
  have does := advance.does
  obtain ⟨s', progress⟩ := p
  cases progress with
  | ended outcome => exact h.acts does
  | waiting activity =>
    obtain ⟨middle, acts, opens⟩ := does
    exact (h.acts acts).flush opens

theorem resume (h : LastCall engine s₀ s) {activity : Activity} {live : NodeState}
    (fits : context.Fits live root activity) (own : activity.tickets.Nodup) {bell : Bell}
    (aware : bell.Aware s.context.cancelled) (timeLimit : Option TimeLimit) :
    LastCall engine s₀ (Run.ofProgress timeLimit (Run.resume engine bell s activity)).1 := by
  by_cases held : bell.ticket ∈ activity.tickets
  · exact h.ofProgress (advances_resume fits aware held own) timeLimit
  · rw [resume_of_notMem held]
    exact h.flush .same

/-- No step goes on after a call that cancels the run as it begins. -/
theorem step (h : LastCall engine s₀ s) {stage : Stage} (sound : Sound root s stage)
    {stimulus : Stimulus} (heard : s.context.cancelled = true → stimulus.isDeaf = false) :
    LastCall engine s₀ (Run.step engine s stage stimulus).1 := by
  have affected (effects : List Effect) : LastCall engine s₀ (s.applyAll effects) :=
    h.acts (.single (.affect effects) : Acts engine .prompt [] s _)
  cases sound with
  | ended => exact h
  | @active activity timeLimit live fits alive own given =>
    cases stimulus with
    | wake bell => exact h.resume fits own heard timeLimit
    | heed =>
      simp only [Run.step, heed]
      split
      · exact h.resume fits own (fun _ => rfl) timeLimit
      · exact h
    | expire =>
      cases timeLimit with
      | none => exact h
      | some bound => exact affected [.cancelExecution]
    | act effects => exact affected effects

end LastCall

/-- Of the calls of a run that heeds its cancellation one that cancels it as it begins is the last.
-/
theorem lastCall_of_leads (h : Leads engine .heeding (launch engine root limit s₀) p)
    (untouched : s₀.context.Untouched root) (distinct : root.ids.Nodup) :
    LastCall engine s₀ p.1 := by
  have launched : Sound root (launch engine root limit s₀).1 (launch engine root limit s₀).2 :=
    sound_launch untouched distinct
  induction h with
  | refl => exact (LastCall.refl engine s₀).ofProgress (advances_start engine root s₀) _
  | tail before move ih =>
    have sound := Leads.sound before launched distinct
    cases move with
    | step s stage time stimulus heard =>
      have ticked : LastCall engine s₀ (later s time) := ih.quiet rfl fun dead => ⟨dead, .refl _⟩
      exact ticked.step (sound.later time) (heard Manner.noConfusion)

/-- The answer for which a task has waited does what it does before anything else goes on. -/
theorem acts_answer {activity : Activity} {node : Node} {spec : TaskSpec} {call : Call} {left : Nat}
    {reply : Reply} {due : Nat} {bell : Bell} {bound : Option Nat} {live : NodeState}
    (inside : (Activity.calling node spec call left reply bell.ticket due bound).Inside activity)
    (inTime : bound.any (· < due) = false) (fits : context.Fits live root activity)
    (own : activity.tickets.Nodup) (timeLimit : Option TimeLimit) :
    Acts engine .heeding root.ids (s.applyAll reply.effects)
      (ofProgress timeLimit (resume engine bell s activity)).1 := by
  have held : bell.ticket ∈ (Activity.calling node spec call left reply bell.ticket due bound).tickets :=
    List.mem_cons_self
  have first : Advances engine (Node.idsAll node.children) (s.applyAll reply.effects)
      (goOn engine bell s (.calling node spec call left reply bell.ticket due bound)) := by
    simp only [goOn, answered, inTime, Bool.false_eq_true, if_false]
    exact advances_settle (advances_attempt node spec call left) (plain_outcomeOf spec reply) _
  have goes := advances_goOn_of_inside inside held first fits own
  refine acts_ofProgress Manner.noConfusion ?_
  rw [resume_eq (inside.tickets_subset held), fits.node_eq]
  exact (advances_close (goes.mono root.idsAll_children_subset) root.mem_ids_self).acts

/-! ## The end of a cancelled run -/

/-- A cancelled run ends as soon as any of its waits is over, or the turn of any of its children has
come. -/
theorem ends_of_wake (s : RunState) {activity : Activity} {live : NodeState}
    (fits : context.Fits live root activity) (own : activity.tickets.Nodup)
    (dead : s.context.cancelled = true) {ticket : Nat} (held : ticket ∈ activity.tickets)
    (timeLimit : Option TimeLimit) :
    ∃ result, (step engine s (.active activity timeLimit) (.wake ⟨ticket, false⟩)).2 =
      .ended (.ok result) ∧ result.ending = .cancelled := by
  have advance : Advances engine root.ids s (resume engine ⟨ticket, false⟩ s activity) :=
    advances_resume fits (fun _ => rfl) held own
  have dead := advance.acts.cancelled dead
  have heeds := advance.heeds
  rw [dead] at heeds
  simp only [step]
  generalize resume engine ⟨ticket, false⟩ s activity = p at heeds
  obtain ⟨s', progress⟩ := p
  cases progress with
  | waiting activity => cases heeds
  | ended outcome =>
    cases outcome with
    | ok value => cases heeds
    | error fault =>
      have hfault : fault.isCancelled = true := heeds
      refine ⟨.ofContext s'.context .cancelled .null (some fault.message), ?_, rfl⟩
      simp only [ofProgress, report, hfault, if_true]

/-- A cancelled run that waits for anything but answers ends when it heeds its cancellation. -/
theorem ends_of_heed (s : RunState) {activity : Activity} {live : NodeState}
    (fits : context.Fits live root activity) (own : activity.tickets.Nodup)
    (dead : s.context.cancelled = true) {ticket : Nat} (nap : activity.firstNap? = some ticket)
    (timeLimit : Option TimeLimit) :
    ∃ result, (step engine s (.active activity timeLimit) .heed).2 = .ended (.ok result) ∧
      result.ending = .cancelled := by
  have woken : ∃ result, (step engine s (.active activity timeLimit) (.wake ⟨ticket, false⟩)).2 =
      .ended (.ok result) ∧ result.ending = .cancelled :=
    ends_of_wake s fits own dead (mem_of_firstNap? nap) timeLimit
  simpa only [step, heed, dead, nap] using woken

/-- What comes next by the clock ends a cancelled run, whoever has noticed that it is cancelled. -/
theorem ends_by_clock {activity : Activity} {live : NodeState}
    (fits : s.context.Fits live root activity) (own : activity.tickets.Nodup)
    (dead : s.context.cancelled = true) (noticed : Bool) (timeLimit : Option TimeLimit) :
    ∃ due stimulus, next? s.now noticed (.active activity timeLimit) = some (due, stimulus) ∧
      ∀ time, ∃ outcome,
        (step engine (later s time) (.active activity timeLimit) stimulus).2 = .ended outcome ∧
          Cancelled outcome := by
  obtain ⟨due, stimulus, next⟩ := exists_next? (tickets_ne_nil fits) s.now noticed timeLimit
  refine ⟨due, stimulus, next, fun time => ?_⟩
  have comes := comes_of_next? next
  have woken {ticket : Nat} (held : ticket ∈ activity.tickets) : ∃ outcome,
      (step engine (later s time) (.active activity timeLimit) (.wake ⟨ticket, false⟩)).2 =
        .ended outcome ∧ Cancelled outcome := by
    obtain ⟨result, ended, ending⟩ := ends_of_wake (later s time) fits own dead held timeLimit
    exact ⟨.ok result, ended, ending⟩
  cases comes with
  | past first | wait first => exact woken (ticket_mem_of_firstTimer? first)
  | turn first => exact woken (ticket_mem_of_door (List.mem_of_head? first))
  | heed _ nap =>
    obtain ⟨result, ended, ending⟩ := ends_of_heed (later s time) fits own dead nap timeLimit
    exact ⟨.ok result, ended, ending⟩
  | expire limited =>
    subst limited
    exact ⟨_, rfl, _, rfl⟩

/-- A cancellation of a run wins, wherever it comes from. In every state that the run reaches:
nothing has begun since, if the run was cancelled before it was launched; nothing begins from then
on, if it is cancelled by now, if somebody outside cancels it next, or if an answer that a task has
waited for does; nothing has begun since a call that cancelled it as it began, whether the call was
answered at once or is still to be answered; and a cancelled run that still waits is ended as a
cancelled one by whatever it waits for, by its notice of the cancellation, and by what comes next by
the clock as one or by its time limit. Where something is said to begin no more, the end of a delay
does not meet the cancellation. -/
theorem cancellation_wins (engine : Engine) (root : Node) (limit : Option Duration) (s₀ : RunState)
    (distinct : root.ids.Nodup) (nodes : s₀.context.nodes = []) {p : RunState × Stage}
    (h : Reaches engine root limit s₀ p) :
    (s₀.context.cancelled = true → Ceased s₀.world.calls s₀.context p) ∧
    (p.1.context.cancelled = true →
      ∀ q, Leads engine .heeding p q → Ceased p.1.world.calls p.1.context q) ∧
    (∀ activity timeLimit time effects, p.2 = .active activity timeLimit →
      effects.any (Effect.cancels p.1.context.executionId) = true →
      ∀ q, Leads engine .heeding (step engine (later p.1 time) p.2 (.act effects)) q →
        Ceased p.1.world.calls p.1.context q) ∧
    (∀ activity timeLimit time node spec call left reply due bound bell,
      p.2 = .active activity timeLimit →
      (Activity.calling node spec call left reply bell.ticket due bound).Inside activity →
      bound.any (· < due) = false →
      reply.effects.any (Effect.cancels p.1.context.executionId) = true →
      ∀ q, Leads engine .heeding (step engine (later p.1 time) p.2 (.wake bell)) q →
        Ceased p.1.world.calls p.1.context q) ∧
    (Leads engine .heeding (launch engine root limit s₀) p →
      ∀ earlier entry rest, p.1.world.calls = earlier ++ entry :: rest →
      s₀.world.calls.length ≤ earlier.length →
      (engine.executor earlier entry).beginning.any (Effect.cancels entry.context.executionId) =
        true →
      ∀ q, Leads engine .heeding p q → Ceased (earlier ++ [entry]) entry.context q) ∧
    (p.1.context.cancelled = true → ∀ activity timeLimit, p.2 = .active activity timeLimit →
      (∀ ticket ∈ activity.tickets, ∀ time, ∃ result,
        (step engine (later p.1 time) p.2 (.wake ⟨ticket, false⟩)).2 = .ended (.ok result) ∧
          result.ending = .cancelled) ∧
      (∀ ticket, activity.firstNap? = some ticket → ∀ time, ∃ result,
        (step engine (later p.1 time) p.2 .heed).2 = .ended (.ok result) ∧
          result.ending = .cancelled) ∧
      ∃ due stimulus, next? p.1.now true p.2 = some (due, stimulus) ∧ ∀ time, ∃ outcome,
        (step engine (later p.1 time) p.2 stimulus).2 = .ended outcome ∧ Cancelled outcome) := by
  have untouched := s₀.context.untouched_of_nodes nodes root
  have sound := h.sound untouched distinct
  obtain ⟨s, stage⟩ := p
  -- A step that begins with effects that cancel the run leaves it ceased for good.
  have effected {time : Nat} {effects : List Effect} {stimulus : Stimulus}
      (cancels : effects.any (Effect.cancels s.context.executionId) = true)
      (acts : Acts engine .heeding root.ids ((later s time).applyAll effects)
        (step engine (later s time) stage stimulus).1) (q : RunState × Stage)
      (leads : Leads engine .heeding (step engine (later s time) stage stimulus) q) :
      Ceased s.world.calls s.context q := by
    have dead : ((later s time).applyAll effects).context.cancelled = true := by
      rw [RunState.cancelled_applyAll]
      exact Bool.or_eq_true_iff.2 (.inr cancels)
    have calls := (later s time).calls_applyAll effects
    have still := (later s time).still_applyAll effects
    have next := (Move.any engine s stage time stimulus).sound sound distinct
    exact (ceased_of_acts _ dead calls still acts next).leads next distinct leads
  refine ⟨fun dead => ?_, fun dead q leads => ?_, ?_, ?_, ?_, ?_⟩
  · have launched : Sound root (launch engine root limit s₀).1 (launch engine root limit s₀).2 :=
      sound_launch untouched distinct
    have ceased : Ceased s₀.world.calls s₀.context (launch engine root limit s₀) :=
      ceased_of_acts s₀ dead rfl (.refl _) (acts_launch Manner.noConfusion) launched
    have ended : (launch engine root limit s₀).2 =
        .ended (report (s₀.touch root.id) (.error s₀.cancelledFault)) := by
      rw [launch, start_eq, if_pos dead]
      rfl
    exact (ceased.ended ended h).1
  · have ceased : Ceased s.world.calls s.context (s, stage) :=
      ⟨dead, rfl, .refl _, sound.outcome dead⟩
    exact ceased.leads sound distinct leads
  · rintro activity timeLimit time effects rfl cancels
    exact effected cancels .refl
  · rintro activity timeLimit time node spec call left reply due bound bell rfl inside inTime cancels
    refine effected cancels ?_
    cases sound with
    | active fits alive own given => exact acts_answer inside inTime fits own timeLimit
  · intro heeding earlier entry rest split begun cancels q leads
    have last := lastCall_of_leads heeding untouched distinct
    obtain ⟨rfl, dead, still⟩ := last earlier entry rest split begun cancels
    have ceased : Ceased (earlier ++ [entry]) entry.context (s, stage) :=
      ⟨dead, split, still, sound.outcome dead⟩
    exact ceased.leads sound distinct leads
  · rintro dead activity timeLimit rfl
    cases sound with
    | active fits alive own given =>
      refine ⟨fun ticket held time => ?_, fun ticket nap time => ?_,
        ends_by_clock fits own dead _ _⟩
      · exact ends_of_wake (later s time) fits own dead held timeLimit
      · exact ends_of_heed (later s time) fits own dead nap timeLimit

/-- Halfway through two tasks the run is cancelled from outside. -/
theorem cancellation_wins_halfway : pair.ids.Nodup ∧ outset.context.nodes = [] ∧
    Reaches slow pair none outset halfway ∧
    [Effect.cancelToken].any (Effect.cancels halfway.1.context.executionId) = true ∧
    ∀ q, Leads slow .heeding (step slow (later halfway.1 7) halfway.2 (.act [.cancelToken])) q →
      Ceased halfway.1.world.calls halfway.1.context q := by
  have distinct : pair.ids.Nodup := by decide
  refine ⟨distinct, rfl, reaches_halfway, rfl, ?_⟩
  have wins := cancellation_wins slow pair none outset distinct rfl reaches_halfway
  exact wins.2.2.1 _ none 7 [.cancelToken] rfl rfl

end Run

end Stepwise

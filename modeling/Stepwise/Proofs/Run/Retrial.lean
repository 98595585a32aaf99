import Stepwise.Proofs.Run.Everywhere
import Stepwise.Proofs.Run.Lasting

/-!
# Trials of a task

A task that is dispatched makes its call once, and again as long as the call fails and there are
attempts left, each time when the pause after the last trial is over. `Dispatch.Tries` is the law of
the trials so far, and `task_retrial` says what has become of them when the task ends in a run by
the clock that was not cancelled: the calls made in its name, when they were made, how they were
counted, and what the task came to.
-/

namespace Stepwise.Run

/-- A task that is dispatched, with the call that it makes. -/
structure Dispatch where
  engine : Engine
  node : Node
  spec : TaskSpec
  call : Call

namespace Dispatch

variable (d : Dispatch)

/-- The call in a trial that begins in some state. -/
def entry (s : RunState) : CallEntry := ⟨d.node.id, s.now, s.context, d.call⟩

/-- How the call in a trial is answered. -/
def reply (s : RunState) : Reply := d.engine.executor s.world.calls (d.entry s)

/-- When the call in a trial has finished. -/
def due (s : RunState) : Nat := s.now + (d.reply s).delay

/-- When a trial is out of time, if the task has a timeout. -/
def limit? (s : RunState) : Option Nat := d.spec.timeout.map s.world.wakeAt

/-- When a trial ends: the call has finished, or the trial is out of time before. -/
def ends (s : RunState) : Nat := ((d.limit? s).map (min (d.due s))).getD (d.due s)

/-- What a trial comes to: a call that has not finished in time counts as timed out. -/
def outcome (s : RunState) : Except Fault Json :=
  if (d.limit? s).any (· < d.due s) then lateOutcome d.spec else outcomeOf d.spec (d.reply s)

/-- When the pause after a trial is over. -/
def next (s : RunState) : Nat :=
  World.afterPause { s.world with now := d.ends s } d.engine.defaults.retryDelay

/-- It is time for a trial after some others: for the first when the task is dispatched, and for
another when the last has failed and the pause after it is over. -/
inductive Turn (s₀ : RunState) : List RunState → RunState → Prop
  | first {s : RunState} (now : s.now = s₀.now) : Turn s₀ [] s
  | again {earlier : List RunState} {last s : RunState} {fault : Fault}
      (failed : d.outcome last = .error fault) (now : s.now = d.next last) :
      Turn s₀ (earlier ++ [last]) s

/-- Some trials, each in its turn, with the states in which they begin. -/
inductive Tries (s₀ : RunState) : List RunState → Prop
  | none : Tries s₀ []
  | next {earlier : List RunState} {s : RunState} (tries : Tries s₀ earlier)
      (turn : d.Turn s₀ earlier s) : Tries s₀ (earlier ++ [s])

/-- The calls made in the name of the task since it was dispatched are those of some trials. -/
def Calls (s₀ : RunState) (trials : List RunState) (s : RunState) : Prop :=
  ∃ made, s.world.calls = s₀.world.calls ++ made ∧
    made.filter (fun entry => entry.caller = d.node.id) = trials.map d.entry

/-- Where the trials of a task stand: the task runs, and each trial but the first was counted as
a retry. -/
structure Stands (s₀ : RunState) (trials : List RunState) (retries : Nat) (s : RunState) :
    Prop where
  tries : d.Tries s₀ trials
  calls : d.Calls s₀ trials s
  counted : Attempts s d.node retries

/-- What a task comes to in its last trial. -/
inductive Settles (trials : List RunState) (last : RunState) : Except Fault Json → Prop
  | succeeds {value : Json} (success : d.outcome last = .ok value) : Settles trials last (.ok value)
  | fails {fault : Fault} (failed : d.outcome last = .error fault)
      (spent : trials.length + 1 = attempts d.spec) :
      Settles trials last (.error (exhausted d.node d.spec fault))

/-- What a task has come to in its trials: it waits for the answer of the last, or for the next to
begin, or it has ended with the last. -/
inductive Comes (s₀ : RunState) : RunState × Progress → Prop
  | calling {earlier : List RunState} {last s : RunState} {left ticket : Nat}
      (stands : d.Stands s₀ (earlier ++ [last]) earlier.length s)
      (count : earlier.length + 1 + left = attempts d.spec) :
      Comes s₀ (s, .waiting (.calling d.node d.spec d.call left (d.reply last) ticket (d.due last)
        (d.limit? last)))
  | pausing {earlier : List RunState} {last s : RunState} {left ticket due : Nat} {fault : Fault}
      (stands : d.Stands s₀ (earlier ++ [last]) (earlier.length + 1) s)
      (failed : d.outcome last = .error fault)
      (count : earlier.length + 1 + left = attempts d.spec) (more : left ≠ 0)
      (awake : due = d.next last) :
      Comes s₀ (s, .waiting (.pausing d.node d.spec d.call left ticket due))
  | ended {earlier : List RunState} {last s : RunState} {outcome : Except Fault Json}
      (stands : d.Stands s₀ (earlier ++ [last]) earlier.length s) (now : s.now = d.ends last)
      (enough : earlier.length < attempts d.spec) (settles : d.Settles earlier last outcome) :
      Comes s₀ (s, .ended outcome)

/-- What a task has come to unless the run was cancelled. -/
abbrev Goes (s₀ : RunState) (p : RunState × Progress) : Prop :=
  p.1.context.cancelled = false → d.Comes s₀ p

variable {d} {s s' s₀ : RunState} {trials earlier : List RunState} {last : RunState}
  {retries left : Nat}

/-- A task stands where it stood as long as others do nothing to it. -/
theorem Stands.keep (h : d.Stands s₀ trials retries s) (calls : s'.world.calls = s.world.calls)
    (phase : s'.context.phase d.node.id = s.context.phase d.node.id) :
    d.Stands s₀ trials retries s' := by
  obtain ⟨made, before, own⟩ := h.calls
  obtain ⟨since, counted⟩ := h.counted
  exact ⟨h.tries, ⟨made, calls.trans before, own⟩, since, phase.trans counted⟩

/-- What goes on aside makes no call in the name of the task, and does not count its retries. -/
theorem Stands.aside (h : d.Stands s₀ trials retries s) (aside : Aside d.node.ids s s')
    (live : s'.context.cancelled = false) : d.Stands s₀ trials retries s' := by
  obtain ⟨made, before, own⟩ := h.calls
  obtain ⟨since, counted⟩ := h.counted
  obtain ⟨others, after, apart⟩ := aside.calls
  have none : others.filter (fun entry => entry.caller = d.node.id) = [] := by
    refine List.filter_eq_nil_iff.2 fun entry member same => apart entry member ?_
    rw [of_decide_eq_true same]
    exact d.node.mem_ids_self
  refine ⟨h.tries, ⟨made ++ others, ?_, ?_⟩, since, ?_⟩
  · rw [after, before, List.append_assoc]
  · rw [List.filter_append, own, none, List.append_nil]
  · rw [aside.phases live _ d.node.mem_ids_self, counted]

/-- A trial that is in its turn begins with its call. -/
theorem Stands.place (h : d.Stands s₀ trials retries s) (turn : d.Turn s₀ trials s) :
    d.Stands s₀ (trials ++ [s]) retries (s.place d.engine d.node.id d.call).2 := by
  obtain ⟨made, before, own⟩ := h.calls
  refine ⟨h.tries.next turn, ⟨made ++ [d.entry s], ?_, ?_⟩, h.counted⟩
  · rw [← List.append_assoc, ← before]
    rfl
  · rw [List.filter_append, own, List.map_append]
    simp [entry]

/-- All trials before the last have failed. -/
theorem Tries.failed (h : d.Tries s₀ (earlier ++ [last])) :
    ∀ trial ∈ earlier, ∃ fault, d.outcome trial = .error fault := by
  generalize all : earlier ++ [last] = trials at h
  induction h generalizing earlier last with
  | none => exact absurd all (List.append_ne_nil_of_right_ne_nil _ (List.cons_ne_nil _ _))
  | @next before s tries turn ih =>
    obtain ⟨rfl, -⟩ := List.append_inj' all rfl
    cases turn with
    | first => exact nofun
    | @again before last s fault failed =>
      intro trial member
      rcases List.mem_append.1 member with member | member
      · exact ih rfl trial member
      · exact ⟨fault, List.mem_singleton.1 member ▸ failed⟩

/-- The pause after a trial is over as soon as its length has gone by since the trial ended. -/
theorem next_le_iff
    (told : d.ends last / millisPerSecond + d.engine.defaults.retryDelay.secs < signedBound)
    (time : Nat) : d.next last ≤ time ↔
      d.ends last * nanosPerMilli + d.engine.defaults.retryDelay.nanos ≤ time * nanosPerMilli :=
  World.afterPause_le_iff told time

/-! ## How a trial ends -/

/-- A call that is answered at once is never late. -/
theorem outcome_of_prompt (prompt : (d.reply s).delay = 0) :
    d.outcome s = outcomeOf d.spec (d.reply s) ∧ d.ends s = s.now := by
  have due : d.due s = s.now := by rw [due, prompt, Nat.add_zero]
  unfold outcome ends
  rw [due]
  cases limit : d.limit? s with
  | none => exact ⟨rfl, rfl⟩
  | some time =>
    obtain ⟨length, -, rfl⟩ := Option.map_eq_some_iff.1 limit
    have later : s.now ≤ s.world.wakeAt length := World.now_le_wakeAt _ _
    refine ⟨if_neg ?_, Nat.min_eq_left later⟩
    simpa using later

/-- A call that is not answered at once is late if there is no time to wait. -/
theorem outcome_of_hurry (pending : (d.reply s).delay ≠ 0)
    (hurry : (d.limit? s).any (· ≤ s.now) = true) :
    d.outcome s = lateOutcome d.spec ∧ d.ends s = s.now := by
  have later : s.now < d.due s := Nat.lt_add_of_pos_right (Nat.pos_of_ne_zero pending)
  unfold outcome ends
  cases limit : d.limit? s with
  | none =>
    rw [limit] at hurry
    cases hurry
  | some time =>
    obtain ⟨length, -, rfl⟩ := Option.map_eq_some_iff.1 limit
    have least : s.now ≤ s.world.wakeAt length := World.now_le_wakeAt _ _
    have most : s.world.wakeAt length ≤ s.now := by
      rw [limit] at hurry
      simpa using hurry
    have now : s.world.wakeAt length = s.now := Nat.le_antisymm most least
    rw [now]
    refine ⟨if_pos ?_, Nat.min_eq_right (Nat.le_of_lt later)⟩
    simpa using later

/-! ## From one trial to the next -/

/-- After the end of a trial the task has ended, waits for the next, or begins it. -/
theorem goes_settle {again : RunState → RunState × Progress}
    (next : ∀ s : RunState, left ≠ 0 → d.Stands s₀ (earlier ++ [last]) (earlier.length + 1) s →
      d.Turn s₀ (earlier ++ [last]) s → d.Goes s₀ (again s))
    (stands : s.context.cancelled = false → d.Stands s₀ (earlier ++ [last]) earlier.length s)
    (now : s.now = d.ends last) (count : earlier.length + 1 + left = attempts d.spec) :
    d.Goes s₀ (settle d.engine d.node d.spec d.call left again s (d.outcome last)) := by
  unfold settle
  by_cases dead : s.context.cancelled = true
  · rw [if_pos dead]
    exact fun live => absurd dead (ne_true_of_eq_false live)
  rw [if_neg dead]
  have stands := stands (eq_false_of_ne_true dead)
  cases comes : d.outcome last with
  | ok value => exact fun _ => .ended stands now (by omega) (.succeeds comes)
  | error fault =>
    dsimp only
    by_cases none : left = 0
    · rw [if_pos none]
      exact fun _ => .ended stands now (by omega) (.fails comes (by omega))
    rw [if_neg none]
    have retried : d.Stands s₀ (earlier ++ [last]) (earlier.length + 1)
        (s.retry d.node.id (attempts d.spec - left) fault) := by
      obtain ⟨since, counted⟩ := stands.counted
      refine ⟨stands.tries, stands.calls, since, ?_⟩
      rw [s.phase_retry, if_pos rfl, counted]
      rfl
    by_cases zero : d.engine.defaults.retryDelay = .zero
    · rw [if_pos zero]
      refine next _ none retried (.again comes ?_)
      rw [Dispatch.next, World.afterPause, if_pos zero]
      exact now
    · rw [if_neg zero]
      refine fun _ => .pausing (retried.keep rfl rfl) comes count none ?_
      rw [Dispatch.next, World.afterPause, if_neg zero]
      exact World.wakeAt_congr now _

/-- A task in its turn makes its next trials. -/
theorem goes_attempt (more : left ≠ 0) (stands : d.Stands s₀ trials trials.length s)
    (turn : d.Turn s₀ trials s) (count : trials.length + left = attempts d.spec) :
    d.Goes s₀ (attempt d.engine d.node d.spec d.call left s) := by
  induction left generalizing trials s with
  | zero => exact absurd rfl more
  | succ left ih =>
    have placed := stands.place turn
    have count : trials.length + 1 + left = attempts d.spec := by omega
    have again (s' : RunState) (more : left ≠ 0)
        (stands : d.Stands s₀ (trials ++ [s]) (trials.length + 1) s')
        (turn : d.Turn s₀ (trials ++ [s]) s') :
        d.Goes s₀ (attempt d.engine d.node d.spec d.call left s') :=
      ih more (by simpa using stands) turn (by simpa using count)
    simp only [attempt]
    split
    · next prompt =>
      obtain ⟨outcome, ends⟩ := outcome_of_prompt prompt
      refine outcome ▸ goes_settle again (fun live => ?_) ?_ count
      · exact placed.keep (RunState.calls_applyAll _ _) (RunState.phase_applyAll_of_live _ live _)
      · exact (RunState.now_applyAll _ _).trans ends.symm
    · next pending =>
      split
      · next hurry =>
        obtain ⟨outcome, ends⟩ := outcome_of_hurry pending hurry
        refine outcome ▸ goes_settle again (fun live => ?_) ?_ count
        · exact placed.keep (RunState.calls_applyAll _ _) (RunState.phase_applyAll_of_live _ live _)
        · exact (RunState.now_applyAll _ _).trans ends.symm
      · exact fun _ => .calling (placed.keep rfl rfl) count

/-- When the answer to a call has come, or is late, the task goes on after its trial. -/
theorem goes_answered (stands : d.Stands s₀ (earlier ++ [last]) earlier.length s)
    (now : s.now = d.ends last) (count : earlier.length + 1 + left = attempts d.spec) :
    d.Goes s₀ (answered d.engine d.node d.spec d.call left (d.reply last) (d.due last)
      (d.limit? last) s) := by
  have again (s : RunState) (more : left ≠ 0)
      (stands : d.Stands s₀ (earlier ++ [last]) (earlier.length + 1) s)
      (turn : d.Turn s₀ (earlier ++ [last]) s) :
      d.Goes s₀ (attempt d.engine d.node d.spec d.call left s) :=
    goes_attempt more (by simpa using stands) turn (by simpa using count)
  unfold answered
  dsimp only
  split
  · next late =>
    have outcome : d.outcome last = lateOutcome d.spec := if_pos late
    exact outcome ▸ goes_settle again (fun _ => stands) now count
  · next inTime =>
    have outcome : d.outcome last = outcomeOf d.spec (d.reply last) := if_neg inTime
    refine outcome ▸ goes_settle again (fun live => ?_) ((s.now_applyAll _).trans now) count
    exact stands.keep (s.calls_applyAll _) (s.phase_applyAll_of_live live _)

/-- When the pause after a trial is over, the next begins. -/
theorem goes_rested {fault : Fault}
    (stands : d.Stands s₀ (earlier ++ [last]) (earlier.length + 1) s)
    (failed : d.outcome last = .error fault)
    (count : earlier.length + 1 + left = attempts d.spec) (more : left ≠ 0)
    (now : s.now = d.next last) (deaf : Bool) : d.Goes s₀ (rested d.engine d.node d.spec d.call left deaf s) := by
  unfold rested
  split
  · next dead => exact fun live => absurd (Bool.and_eq_true_iff.1 dead).1 (ne_true_of_eq_false live)
  · exact goes_attempt more (by simpa using stands) (.again failed now) (by simpa using count)

end Dispatch

variable {engine : Engine} {root node : Node} {spec : TaskSpec} {s s₀ : RunState}

/-- An execution of a task by the clock makes its trials, and its end is recorded. -/
theorem Execution.comes {p : RunState × Progress} (h : Execution engine OnTime node s₀ p)
    (kind : node.kind = .task spec) (untouched : s₀.context.Untouched node)
    (live : p.1.context.cancelled = false) :
    ∃ q, Dispatch.Comes ⟨engine, node, spec, callOf spec s₀⟩ s₀ q ∧ p = close node q := by
  induction h with
  | starts =>
    have fresh : s₀.context.cancelled = false := alive_of (dead_start node) live
    rw [start_eq, if_neg (ne_true_of_eq_false fresh), cancelled_close] at live
    rw [start_eq, if_neg (ne_true_of_eq_false fresh)]
    simp only [work, kind] at live ⊢
    have pending : s₀.context.phase node.id = .pending :=
      untouched node.id node.mem_ids_self
    have running : Attempts (s₀.startNode node) node 0 := by
      refine ⟨s₀.now, ?_⟩
      rw [s₀.phase_startNode, if_pos rfl, pending]
      rfl
    have more : attempts spec ≠ 0 := by
      unfold attempts UInt32.size
      omega
    have stands : Dispatch.Stands ⟨engine, node, spec, callOf spec s₀⟩ s₀ [] 0
        (s₀.startNode node) := ⟨.none, ⟨[], (List.append_nil _).symm, rfl⟩, running⟩
    exact ⟨_, Dispatch.goes_attempt more stands (.first rfl) (Nat.zero_add _) live, rfl⟩
  | @goesOn s s' activity bell before aside held awake ih =>
    have alive : s'.context.cancelled = false := alive_of (dead_resume activity) live
    obtain ⟨q, comes, same⟩ := ih (aside.live alive)
    rw [eq_of_close_waiting same] at comes
    rw [resume_eq held] at live ⊢
    cases comes with
    | calling stands count =>
      have now := awake alive _ List.mem_cons_self (List.mem_singleton.1 held).symm
      refine ⟨_, Dispatch.goes_answered (stands.aside aside alive) now.symm count ?_, rfl⟩
      rwa [cancelled_close] at live
    | pausing stands failed count more awake' =>
      have now := awake alive _ List.mem_cons_self (List.mem_singleton.1 held).symm
      refine ⟨_, Dispatch.goes_rested (stands.aside aside alive) failed count more
        (now.symm.trans awake') bell.deaf ?_, rfl⟩
      rwa [cancelled_close] at live

/-- Every task for which a run by the clock waits is in an execution, and one that ends in a run
that was not cancelled has made its call, resolved once, in trials one after the other: as soon as
it was dispatched, and again as soon as the pause after a trial that failed was over, until one
succeeded or there were no attempts left. Each trial but the first was counted as a retry. The task
comes to the value of the last trial, or to its failure if it was the only attempt, or to the
failure of all. -/
theorem task_retrial (engine : Engine) (distinct : root.ids.Nodup) :
    (∀ (limit : Option Duration) {s₀ s : RunState} {activity part : Activity}
      {bound : Option TimeLimit} (steps : Nat) (actions : List Action),
      s₀.context.Untouched root →
      play engine steps actions (launch engine root limit s₀) = (s, .active activity bound) →
      part.Inside activity → Executes engine OnTime s part) ∧
    ∀ {node : Node} {spec : TaskSpec} {s₀ s : RunState} {outcome : Except Fault Json},
      node.kind = .task spec → s₀.context.Untouched node →
      Execution engine OnTime node s₀ (s, .ended outcome) → s.context.cancelled = false →
      let d : Dispatch := ⟨engine, node, spec, callOf spec s₀⟩
      let total := min (spec.retries.toNat + 1) (UInt32.size - 1)
      ∃ earlier last, d.Tries s₀ (earlier ++ [last]) ∧ d.Calls s₀ (earlier ++ [last]) s ∧
        (s.context.phase node.id).retries = earlier.length ∧ s.now = d.ends last ∧
        earlier.length < total ∧
        (∀ trial ∈ earlier, (∃ fault, d.outcome trial = .error fault) ∧
          (d.ends trial / millisPerSecond + engine.defaults.retryDelay.secs < signedBound →
            ∀ time, d.next trial ≤ time ↔
              d.ends trial * nanosPerMilli + engine.defaults.retryDelay.nanos ≤
                time * nanosPerMilli)) ∧
        ((∃ value, d.outcome last = .ok value ∧ outcome = .ok value) ∨
          ∃ fault, d.outcome last = .error fault ∧ earlier.length + 1 = total ∧
            outcome = .error
              (if total = 1 then fault else .retriesExhausted node.id total fault.message)) := by
  refine ⟨fun limit {s₀ s activity part bound} steps actions untouched played inside => ?_,
    fun {node spec s₀ s outcome} kind untouched h live => ?_⟩
  · have executes : (play engine steps actions (launch engine root limit s₀)).2.Throughout
        (Executes engine OnTime) (play engine steps actions (launch engine root limit s₀)).1 :=
      executes_play untouched distinct steps actions
    rw [played] at executes
    exact executes part inside
  intro d total
  obtain ⟨q, comes, same⟩ := h.comes kind untouched live
  cases comes with
  | calling | pausing => cases same
  | @ended earlier last s₁ outcome stands now enough settles =>
    cases same
    obtain ⟨made, calls, own⟩ := stands.calls
    obtain ⟨since, counted⟩ := stands.counted
    refine ⟨earlier, last, stands.tries, ⟨made, ?_, own⟩, ?_, ?_, enough, ?_, ?_⟩
    · rw [s₁.calls_record]
      exact calls
    · rw [s₁.phase_record, if_pos rfl, s₁.retries_closed]
      exact congrArg Phase.retries counted
    · exact (s₁.now_record _ _).trans now
    · exact fun trial member => ⟨stands.tries.failed trial member, Dispatch.next_le_iff⟩
    · cases settles with
      | succeeds success => exact .inl ⟨_, success, rfl⟩
      | fails failed spent => exact .inr ⟨_, failed, spent, rfl⟩

/-! ## A task that fails once -/

/-- An engine whose first answer is a failure. -/
def shaky : Engine :=
  ⟨fun earlier _ => ⟨5, [], if earlier.isEmpty then .error "down" else .ok (.str "done"), []⟩,
    .standard⟩

/-- A task of two attempts. -/
def twice : TaskSpec := ⟨"work", [], [], 1, none, none⟩

/-- It makes its second call a second after the first has failed. -/
theorem task_retrial_twice :
    let node : Node := .make "twice" (.task twice) []
    let d : Dispatch := ⟨shaky, node, twice, ⟨"work", [], []⟩⟩
    node.ids.Nodup ∧ node.kind = .task twice ∧ outset.context.Untouched node ∧
      (∃ s activity, play shaky 1 [] (launch shaky node none outset) = (s, .active activity none) ∧
        Executes shaky OnTime s activity) ∧
      ∃ s, Execution shaky OnTime node outset (s, .ended (.ok (.str "done"))) ∧
        s.context.cancelled = false ∧
        ∃ first last, d.Tries outset [first, last] ∧ d.Calls outset [first, last] s ∧
          d.ends last = 1010 ∧ (∃ fault, d.outcome first = .error fault) ∧
          d.outcome last = .ok (.str "done") := by
  intro node d
  have distinct : node.ids.Nodup := by decide
  have untouched : outset.context.Untouched node := fun _ _ => rfl
  have retrial := task_retrial shaky distinct
  have due {s : RunState} {activity : Activity} {timer : Timer} {ticket : Nat}
      (only : activity.timers = [timer]) (now : timer.due = s.now) : OnTime s activity ticket := by
    intro _ other member _
    rw [only] at member
    rw [List.mem_singleton.1 member, now]
  have begun : Execution shaky OnTime node outset (start shaky outset node) := .starts
  have failed := @Execution.goesOn _ _ _ _ _ _ _ ⟨0, false⟩ begun (.later _ _ 5)
    List.mem_cons_self (due rfl rfl)
  have rested := @Execution.goesOn _ _ _ _ _ _ _ ⟨1, false⟩ failed (.later _ _ 1005)
    List.mem_cons_self (due rfl rfl)
  have ended := @Execution.goesOn _ _ _ _ _ _ _ ⟨2, false⟩ rested (.later _ _ 1010)
    List.mem_cons_self (due rfl rfl)
  obtain ⟨earlier, last, tries, calls, retries, now, -, fails, settled⟩ :=
    retrial.2 rfl untouched ended rfl
  have one : 1 = earlier.length := retries
  obtain ⟨first, rfl⟩ := List.length_eq_one_iff.1 one.symm
  refine ⟨distinct, rfl, untouched, ⟨_, _, rfl, retrial.1 none 1 [] untouched rfl .self⟩, _, ended,
    rfl, first, last, tries, calls, now.symm, (fails first List.mem_cons_self).1, ?_⟩
  rcases settled with ⟨value, success, same⟩ | ⟨fault, -, -, same⟩
  · cases same
    exact success
  · cases same

end Stepwise.Run

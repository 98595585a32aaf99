import Stepwise.Proofs.Run.Clock
import Stepwise.Proofs.Run.Throughout
import Stepwise.Proofs.Run.Upcoming

/-!
# Executions in runs

Every activity for which a run waits, however deep inside others, is the progress of an execution
of its node that was started when the run was not cancelled and nothing in its tree had begun
(`Reaches.executes`). If the run goes by the clock its waits are over on time
(`executes_play`), since no wait is ever behind the clock.
-/

namespace Stepwise

namespace Activity

/-- The wait of an activity that waits for nothing inside it. -/
def timer? : Activity → Option Timer
  | .calling _ _ _ _ _ ticket due limit => some ⟨(limit.map (min due)).getD due, ticket⟩
  | .pausing _ _ _ _ ticket due => some ⟨due, ticket⟩
  | .polling _ _ _ ticket due => some ⟨due, ticket⟩
  | _ => none

/-- A wait of one's own is among those inside. -/
theorem mem_timers_of_timer? {timer : Timer} {activity : Activity}
    (own : timer ∈ activity.timer?) : timer ∈ activity.timers := by
  cases activity with
  | calling | pausing | polling =>
    cases own
    exact List.mem_cons_self
  | sequence | branch | loop | parallel => cases own

/-- Each wait inside an activity is that of a part of it. -/
theorem exists_timer {timer : Timer} {activity : Activity} (member : timer ∈ activity.timers) :
    ∃ part : Activity, part.Inside activity ∧ part.timer? = some timer := by
  induction activity using Activity.induction with
  | calling | pausing | polling => exact ⟨_, .self, (List.mem_singleton.1 member) ▸ rfl⟩
  | sequence node done current rest ih =>
    obtain ⟨part, inside, own⟩ := ih member
    exact ⟨part, .sequence inside, own⟩
  | branch node current ih =>
    obtain ⟨part, inside, own⟩ := ih member
    exact ⟨part, .branch inside, own⟩
  | loop node spec remaining finished done current rest ih =>
    obtain ⟨part, inside, own⟩ := ih member
    exact ⟨part, .loop inside, own⟩
  | parallel node spec lanes queue door firstError ih =>
    rw [timers, timersOfLanes_eq] at member
    obtain ⟨lane, hlane, member⟩ := List.mem_flatMap.1 member
    cases lane with
    | ended child slot => cases member
    | running child activity =>
      obtain ⟨part, inside, own⟩ := ih child activity hlane member
      exact ⟨part, .parallel hlane inside, own⟩

end Activity

namespace Run

variable {engine : Engine} {wakes : Wakes} {P : RunState → Activity → Prop} {root node : Node}
  {limit : Option Duration} {s s' s₀ : RunState} {stage : Stage} {activity : Activity}

/-! ## Steps of runs -/

/-- All activities for which a run waits have a property. -/
def Stage.Throughout (P : RunState → Activity → Prop) (s : RunState) : Stage → Prop
  | .active activity _ => Run.Throughout P s activity
  | .ended _ => True

namespace Prevails

variable (prevails : Prevails engine wakes P)

include prevails

/-- At the end of a step what was put off is done, which leaves all that waits alone. -/
theorem ofProgress {bound : Option TimeLimit} {p : RunState × Progress}
    (sound : Sound root (Run.ofProgress bound p).1 (Run.ofProgress bound p).2)
    (h : Covers P p.1 p.2.current?) :
    (Run.ofProgress bound p).2.Throughout P (Run.ofProgress bound p).1 := by
  obtain ⟨s', progress⟩ := p
  cases progress with
  | ended outcome => exact trivial
  | waiting activity =>
    cases sound with
    | active fits => exact prevails.keeps fits (h activity rfl) (.flush _ s') s'.now_flush

variable (distinct : root.ids.Nodup)

include distinct

/-- What holds of all that starts holds of what a run waits for at first. -/
theorem launch (untouched : s.context.Untouched root) :
    (Run.launch engine root limit s).2.Throughout P (Run.launch engine root limit s).1 := by
  refine prevails.ofProgress (sound_launch untouched distinct) ?_
  by_cases dead : s.context.cancelled = true
  · rw [start_eq, if_pos dead]
    exact covers_none
  · exact prevails.start root distinct s (eq_false_of_ne_true dead) untouched

/-- What prevails holds of what a run waits for after any wait. -/
theorem goes {live : NodeState} {bound : Option TimeLimit}
    (fits : s.context.Fits live root activity) (alive : Alive s live)
    (own : activity.tickets.Nodup)
    (given : ∀ ticket ∈ activity.tickets, ticket < s.world.tickets)
    (tried : s.context.cancelled = false → activity.Tried s.context root.ids)
    (h : Throughout P s activity) {bell : Bell}
    (awake : bell.ticket ∈ activity.tickets → wakes s activity bell.ticket) :
    (Run.ofProgress bound (Run.resume engine bell s activity)).2.Throughout P
      (Run.ofProgress bound (Run.resume engine bell s activity)).1 := by
  refine prevails.ofProgress (sound_resume fits alive own given distinct bound bell) ?_
  by_cases held : bell.ticket ∈ activity.tickets
  · exact prevails.resume distinct fits alive held own tried (awake held) h
  · rw [resume_of_notMem held]
    rintro _ ⟨⟩
    exact h

/-- A step of a run keeps a property of all that it waits for, if the wait that is over may be. -/
theorem step (sound : Sound root s stage) (tried : stage.Tried root s)
    (h : stage.Throughout P s) (stimulus : Stimulus)
    (awake : ∀ activity bound bell, stage = .active activity bound → stimulus = .wake bell →
      bell.ticket ∈ activity.tickets → wakes s activity bell.ticket) :
    (Run.step engine s stage stimulus).2.Throughout P (Run.step engine s stage stimulus).1 := by
  cases sound with
  | ended => exact trivial
  | @active activity bound live fits alive own given =>
    cases stimulus with
    | wake bell =>
      exact prevails.goes distinct fits alive own given tried h (awake activity bound bell rfl rfl)
    | heed =>
      simp only [Run.step, heed]
      split
      · next dead _ =>
        exact prevails.goes distinct fits alive own given tried h fun _ =>
          prevails.waking.cutShort dead
      · exact h
    | expire =>
      cases bound with
      | none => exact h
      | some bound => exact trivial
    | act effects => exact prevails.keeps fits h (.applyAll _ s effects) (s.now_applyAll effects)

end Prevails

/-! ## Executions -/

/-- An activity is the progress of an execution of its node, which was started when the run was not
cancelled and nothing in its tree had begun. Since then only others have gone on. -/
def Executes (engine : Engine) (wakes : Wakes) (s : RunState) (part : Activity) : Prop :=
  ∃ s₀ s', s₀.context.cancelled = false ∧ s₀.context.Untouched part.node ∧
    Execution engine wakes part.node s₀ (s', .waiting part) ∧ Aside part.node.ids s' s

/-- An execution stays one when others go on aside. -/
theorem Executes.aside {part : Activity} (h : Executes engine wakes s part)
    (aside : Aside part.node.ids s s') : Executes engine wakes s' part := by
  obtain ⟨s₀, before, live, untouched, execution, past⟩ := h
  exact ⟨s₀, before, live, untouched, execution, past.trans aside⟩

/-- Of whatever a run waits for, each part is the execution of a node. -/
theorem prevails_executes (waking : Waking wakes) :
    Prevails engine wakes (Executes engine wakes) where
  waking := waking
  aside h aside _ := h.aside aside
  starts {s s' node activity} live untouched started fits := by
    have same : activity.node = node := fits.node_eq
    subst same
    refine ⟨s, s', live, untouched, ?_, .refl _ _⟩
    rw [← started]
    exact .starts
  goesOn {s s' live live' node part next bell} h fits held awake goes fits' := by
    obtain ⟨s₀, before, live, untouched, execution, past⟩ := h
    have same : next.node = part.node := fits'.node_eq.trans fits.node_eq.symm
    rw [← same] at untouched execution past
    refine ⟨s₀, s', live, untouched, ?_, .refl _ _⟩
    rw [← goes]
    exact .goesOn execution past held awake

theorem Stage.Throughout.later (h : stage.Throughout (Executes engine wakes) s) (time : Nat) :
    stage.Throughout (Executes engine wakes) (later s time) := by
  cases stage with
  | ended outcome => exact trivial
  | active activity bound => exact fun part inside => (h part inside).aside (.later _ s time)

/-- Every activity for which a run waits is the progress of an execution of its node. -/
theorem Reaches.executes {p : RunState × Stage} (h : Reaches engine root limit s₀ p)
    (untouched : s₀.context.Untouched root) (distinct : root.ids.Nodup) :
    p.2.Throughout (Executes engine Anytime) p.1 := by
  have prevails : Prevails engine Anytime (Executes engine Anytime) :=
    prevails_executes waking_anytime
  induction h with
  | refl => exact prevails.launch distinct untouched
  | tail reached move ih =>
    have sound := Reaches.sound reached untouched distinct
    have kept := Reaches.kept reached untouched distinct
    cases move with
    | step s stage time stimulus =>
      refine prevails.step distinct (sound.later time) ?_ (ih.later time) stimulus
        fun _ _ _ _ _ _ => trivial
      cases stage with
      | active activity bound => exact kept.tried
      | ended outcome => exact trivial

/-! ## Waits by the clock -/

/-- The wait of an activity is over at a time that stands well with the clock. -/
def Timed (R : Nat → Timer → Prop) (s : RunState) (part : Activity) : Prop :=
  ∀ timer ∈ part.timer?, R s.now timer

/-- The wait of an activity is not behind the clock. -/
def Ahead (s : RunState) (part : Activity) : Prop := ∀ timer ∈ part.timer?, s.now ≤ timer.due

/-- If something waits now, its wait is not over yet. -/
abbrev AheadOf (p : RunState × Progress) : Prop :=
  ∀ activity ∈ p.2.current?, Timed (fun now timer => now < timer.due) p.1 activity

/-- What ends waits for nothing. -/
theorem aheadOf_close {p : RunState × Progress} (h : AheadOf p) : AheadOf (close node p) := by
  intro activity current
  obtain ⟨closed, inside⟩ := current?_close node p current
  rw [closed]
  exact h activity inside

theorem aheadOf_settle {spec : TaskSpec} {call : Call} {left : Nat}
    {again : RunState → RunState × Progress} (next : ∀ s, AheadOf (again s)) (s : RunState)
    (outcome : Except Fault Json) :
    AheadOf (settle engine node spec call left again s outcome) := by
  unfold settle
  split
  · exact nofun
  · cases outcome with
    | ok value => exact nofun
    | error fault =>
      dsimp only
      split
      · exact nofun
      · split
        · exact next _
        · next pause =>
          rintro _ ⟨⟩ _ ⟨⟩
          refine World.now_lt_wakeAt _ (Nat.pos_of_ne_zero fun none => pause ?_)
          exact Duration.ext none

/-- A task waits for nothing that is past. -/
theorem aheadOf_attempt (spec : TaskSpec) (call : Call) (left : Nat) (s : RunState) :
    AheadOf (attempt engine node spec call left s) := by
  induction left generalizing s with
  | zero => exact nofun
  | succ left ih =>
    simp only [attempt]
    split
    · exact aheadOf_settle ih _ _
    · next pending =>
      split
      · exact aheadOf_settle ih _ _
      · next inTime =>
        rintro _ ⟨⟩ _ ⟨⟩
        have later := Nat.lt_add_of_pos_right (n := (s.place engine node.id call).2.now)
          (Nat.pos_of_ne_zero pending)
        generalize spec.timeout.map _ = limit at inTime
        cases limit with
        | none => exact later
        | some limit =>
          have late : ¬ limit ≤ (s.place engine node.id call).2.now := by simpa using inTime
          exact Nat.lt_min.2 ⟨later, Nat.lt_of_not_le late⟩

/-- Two looks at a condition are some time apart. -/
theorem pollInterval_pos (engine : Engine) (spec : WaitSpec) :
    0 < (pollInterval engine spec).nanos := by
  rw [pollInterval, Duration.nanos_longer]
  exact Nat.lt_of_lt_of_le (by decide) (Nat.le_max_right _ (Duration.ofMillis 1).nanos)

/-- A wait looks again at a time to come. -/
theorem aheadOf_poll (spec : WaitSpec) (deadline : Option Nat) (s : RunState) :
    AheadOf (poll engine node spec deadline s) := by
  unfold poll
  split
  · exact nofun
  · split
    · exact nofun
    · dsimp only
      split
      · exact nofun
      · next early =>
        rintro _ ⟨⟩ _ ⟨⟩
        refine World.now_lt_wakeAt _ ?_
        have interval := pollInterval_pos engine spec
        cases deadline with
        | none => exact interval
        | some deadline =>
          have rest : s.now * nanosPerMilli < deadline := by simpa using early
          rw [Duration.nanos_shorter, Duration.nanos_ofNanos]
          exact Nat.lt_min.2 ⟨interval, Nat.lt_min.2 ⟨Nat.sub_pos_of_lt rest, by decide⟩⟩

theorem aheadOf_answered {spec : TaskSpec} {call : Call} {left : Nat} {reply : Reply} {due : Nat}
    {bound : Option Nat} (s : RunState) :
    AheadOf (answered engine node spec call left reply due bound s) := by
  unfold answered
  dsimp only
  split
  · exact aheadOf_settle (aheadOf_attempt spec call left) _ _
  · exact aheadOf_settle (aheadOf_attempt spec call left) _ _

theorem aheadOf_rested {spec : TaskSpec} {call : Call} {left : Nat} {deaf : Bool} (s : RunState) :
    AheadOf (rested engine node spec call left deaf s) := by
  unfold rested
  split
  · exact nofun
  · exact aheadOf_attempt spec call left s

/-- A task or a wait that starts waits for a time to come. -/
theorem aheadOf_start (live : s.context.cancelled = false)
    (kind : (∃ spec, node.kind = .task spec) ∨ ∃ spec, node.kind = .wait spec) :
    AheadOf (start engine s node) := by
  rw [start_eq, if_neg (ne_true_of_eq_false live)]
  refine aheadOf_close ?_
  rcases kind with ⟨spec, kind⟩ | ⟨spec, kind⟩
  · simp only [work, kind]
    exact aheadOf_attempt spec _ _ _
  · simp only [work, kind]
    exact aheadOf_poll spec _ _

/-- What holds no wait of its own stands well with any clock. -/
theorem timed_of_timer? {R : Nat → Timer → Prop} {part : Activity} (none : part.timer? = none) :
    Timed R s part := by
  intro timer member
  rw [none] at member
  cases member

/-- To hold of the wait of each part is to hold of all waits. -/
theorem throughout_timed_iff {R : Nat → Timer → Prop} :
    Throughout (Timed R) s activity ↔ ∀ timer ∈ activity.timers, R s.now timer := by
  constructor
  · intro h timer member
    obtain ⟨part, inside, own⟩ := Activity.exists_timer member
    exact h part inside timer own
  · intro h part inside timer own
    exact h timer (inside.timers_subset (Activity.mem_timers_of_timer? own))

theorem throughout_ahead_iff :
    Throughout Ahead s activity ↔ ∀ timer ∈ activity.timers, s.now ≤ timer.due :=
  throughout_timed_iff (R := fun now timer => now ≤ timer.due)

/-- A wait stands well with the clock as long as the clock stands still, if it does so when it
begins, and is not over then. -/
theorem prevails_timed {R : Nat → Timer → Prop} (waking : Waking wakes)
    (fresh : ∀ {now : Nat} {timer : Timer}, now < timer.due → R now timer) :
    Prevails engine wakes (Timed R) where
  waking := waking
  aside {s s' part} h _ now timer member := by
    rw [now]
    exact h timer member
  starts {s s' node activity} live _ started fits := by
    have ahead (kind : (∃ spec, node.kind = .task spec) ∨ ∃ spec, node.kind = .wait spec) :
        Timed R s' activity := by
      have starts : AheadOf (start engine s node) := aheadOf_start live kind
      rw [started] at starts
      exact fun timer member => fresh (starts activity rfl timer member)
    cases fits with
    | calling kind | pausing kind => exact ahead (.inl ⟨_, kind⟩)
    | polling kind => exact ahead (.inr ⟨_, kind⟩)
    | sequence | branch | loop | parallel => exact timed_of_timer? rfl
  goesOn {s s' live live' node part next bell} _ fits held _ goes fits' := by
    have ahead (h : AheadOf (goOn engine bell s part)) : Timed R s' next := by
      have resumed : AheadOf (close part.node (goOn engine bell s part)) := aheadOf_close h
      rw [← resume_eq held, goes] at resumed
      exact fun timer member => fresh (resumed next rfl timer member)
    -- What waits by itself now did so before, since its node is the same.
    have before (kind : (∃ spec, node.kind = .task spec) ∨ ∃ spec, node.kind = .wait spec) :
        Timed R s' next := by
      cases fits with
      | calling => exact ahead (aheadOf_answered s)
      | pausing => exact ahead (aheadOf_rested s)
      | polling => exact ahead (aheadOf_poll _ _ s)
      | sequence other | branch other | loop other | parallel other =>
        rw [other] at kind
        simp at kind
    cases fits' with
    | calling kind | pausing kind => exact before (.inl ⟨_, kind⟩)
    | polling kind => exact before (.inr ⟨_, kind⟩)
    | sequence | branch | loop | parallel => exact timed_of_timer? rfl

/-- All that begins to wait waits for a time to come. -/
theorem prevails_ahead (waking : Waking wakes) : Prevails engine wakes Ahead :=
  prevails_timed waking Nat.le_of_lt

/-! ## Runs by the clock -/

/-- A run by the clock: all activities for which it waits are executions whose waits were over on
time, and no wait is behind the clock. -/
structure Punctual (engine : Engine) (root : Node) (s : RunState) (stage : Stage) : Prop where
  sound : Sound root s stage
  tried : stage.Tried root s
  executes : stage.Throughout (Executes engine OnTime) s
  ahead : stage.Throughout Ahead s

/-- A run that is launched is punctual. -/
theorem punctual_launch (untouched : s.context.Untouched root) (distinct : root.ids.Nodup) :
    Punctual engine root (launch engine root limit s).1 (launch engine root limit s).2 where
  sound := sound_launch untouched distinct
  tried := by
    have kept : Kept root .heeding s (launch engine root limit s) := kept_launch distinct untouched
    exact kept.tried
  executes := (prevails_executes waking_onTime).launch distinct untouched
  ahead := (prevails_ahead waking_onTime).launch distinct untouched

/-- A run stays punctual if no wait is passed over. -/
theorem Punctual.step (h : Punctual engine root s stage) (distinct : root.ids.Nodup) {time : Nat}
    (early : ∀ activity bound, stage = .active activity bound →
      ∀ timer ∈ activity.timers, time ≤ timer.due) (stimulus : Stimulus)
    (onTime : ∀ activity bound bell, stage = .active activity bound → stimulus = .wake bell →
      bell.ticket ∈ activity.tickets → OnTime (later s time) activity bell.ticket) :
    Punctual engine root (Run.step engine (later s time) stage stimulus).1
      (Run.step engine (later s time) stage stimulus).2 := by
  have sound := h.sound.later time
  have tried : stage.Tried root (later s time) := by
    cases stage with
    | active activity bound => exact h.tried
    | ended outcome => exact trivial
  have ahead : stage.Throughout Ahead (later s time) := by
    cases stage with
    | ended outcome => exact trivial
    | active activity bound =>
      refine throughout_ahead_iff.2 fun timer member => ?_
      exact Nat.max_le.2 ⟨throughout_ahead_iff.1 h.ahead timer member,
        early activity bound rfl timer member⟩
  exact ⟨sound_step sound distinct stimulus, (kept_step distinct sound tried stimulus).tried,
    (prevails_executes waking_onTime).step distinct sound tried (h.executes.later time) stimulus
      onTime,
    (prevails_ahead waking_onTime).step distinct sound tried ahead stimulus onTime⟩

/-- Unless a wait is behind the clock, what comes next by the clock is not later than any wait. -/
theorem Comes.early {bound : Option TimeLimit} {now due : Nat} {cancelled : Bool}
    {stimulus : Stimulus} (comes : Comes activity bound now cancelled due stimulus)
    (ahead : ∀ timer ∈ activity.timers, now ≤ timer.due) :
    ∀ timer ∈ activity.timers, due ≤ timer.due := by
  cases comes with
  | past | turn | heed => exact ahead
  | wait first => exact firstTimer?_le first
  | expire _ before => exact fun timer member => Nat.le_of_lt (before timer member)

/-- By the clock a wait is over when it is due. -/
theorem Comes.onTime {bound : Option TimeLimit} {due : Nat} {bell : Bell} {cancelled : Bool}
    (comes : Comes activity bound s.now cancelled due (.wake bell)) (own : activity.tickets.Nodup)
    (ahead : ∀ timer ∈ activity.timers, s.now ≤ timer.due) :
    OnTime (later s due) activity bell.ticket := by
  intro _ timer member same
  have later : (later s due).now = max s.now due := rfl
  -- No other wait has the ticket of the first one.
  have only {first : Timer} (earliest : activity.firstTimer? = some first)
      (same : timer.ticket = first.ticket) : timer = first :=
    List.inj_on_of_nodup_map (Activity.nodup_timers own).1 member (mem_of_firstTimer? earliest) same
  rw [later]
  cases comes with
  | past first late =>
    rw [only first same, Nat.max_self]
    exact Nat.le_antisymm late (ahead _ (mem_of_firstTimer? first))
  | wait first early =>
    rw [only first same]
    exact (Nat.max_eq_right (Nat.le_of_lt early)).symm
  | turn first =>
    -- No wait has the ticket of the turn of a child.
    have apart := (Activity.nodup_timers own).2 (List.mem_map_of_mem member)
    rw [same] at apart
    exact absurd (List.mem_of_head? first) apart

section

variable (h : Punctual engine root s stage) (distinct : root.ids.Nodup) {due : Nat}
  {stimulus : Stimulus} {cancelled : Bool} (comes : next? s.now cancelled stage = some (due, stimulus))

include h distinct comes

/-- A run stays punctual when what comes next by the clock comes. -/
theorem Punctual.next :
    Punctual engine root (Run.step engine (later s due) stage stimulus).1
      (Run.step engine (later s due) stage stimulus).2 := by
  have sound := h.sound
  have ahead := h.ahead
  refine h.step distinct ?_ stimulus ?_
  · rintro activity bound rfl
    exact (comes_of_next? comes).early (throughout_ahead_iff.1 ahead)
  · rintro activity bound bell rfl rfl _
    cases sound with
    | active _ _ own _ => exact (comes_of_next? comes).onTime own (throughout_ahead_iff.1 ahead)

/-- A run stays punctual when somebody outside acts on it before something comes by the clock. -/
theorem Punctual.act {time : Nat} (sooner : time < due) (effects : List Effect) :
    Punctual engine root (Run.step engine (later s time) stage (.act effects)).1
      (Run.step engine (later s time) stage (.act effects)).2 := by
  refine h.step distinct ?_ _ ?_
  · rintro activity bound rfl timer member
    have early := (comes_of_next? comes).early (throughout_ahead_iff.1 h.ahead) timer member
    exact Nat.le_trans (Nat.le_of_lt sooner) early
  · rintro _ _ _ _ ⟨⟩

end

/-- Whatever a run comes to by the clock, the waits of all that it waits for were over on time. -/
theorem Punctual.play {p : RunState × Stage} (h : Punctual engine root p.1 p.2)
    (distinct : root.ids.Nodup) (steps : Nat) (actions : List Action) :
    Punctual engine root (play engine steps actions p).1 (play engine steps actions p).2 := by
  induction steps generalizing actions p with
  | zero => exact h
  | succ steps ih =>
    obtain ⟨s, stage⟩ := p
    simp only [Run.play]
    split
    · exact h
    · next due stimulus comes => exact ih (h.next distinct comes) []
    · next due stimulus action rest comes =>
      split
      · next sooner => exact ih (h.act distinct comes sooner action.effects) rest
      · exact ih (h.next distinct comes) (action :: rest)

/-- Every activity for which a run by the clock waits is the progress of an execution of its node
whose waits were over on time. -/
theorem executes_play (untouched : s₀.context.Untouched root) (distinct : root.ids.Nodup)
    (steps : Nat) (actions : List Action) :
    (play engine steps actions (launch engine root limit s₀)).2.Throughout (Executes engine OnTime)
      (play engine steps actions (launch engine root limit s₀)).1 :=
  ((punctual_launch untouched distinct).play distinct steps actions).executes

end Run

end Stepwise

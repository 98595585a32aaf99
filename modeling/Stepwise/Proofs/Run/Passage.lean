import Mathlib.Algebra.BigOperators.Group.List.Basic
import Mathlib.Data.List.Perm.Subperm
import Stepwise.Proofs.Run.Cancellation
import Stepwise.Proofs.Run.Everywhere
import Stepwise.Proofs.Run.Spending

/-!
# The clock goes on

A run by the clock does not stand still. As long as it has not ended it waits for something, and at
one time it takes one of the turns that it has left, or one of the waits that are over by then, or
ends at the notice of its cancellation; and what begins to wait is over later (`Punctual.proceeds`).
So after enough steps the run has ended or its clock has passed any given time (`Punctual.passes`).
-/

namespace Stepwise

/-- The waits inside an activity that are over by some time. -/
def Activity.dueBy (activity : Activity) (time : Nat) : List Timer :=
  activity.timers.filter fun timer => timer.due ≤ time

namespace Run

/-- The waits of a run that are over by some time. -/
def Stage.dueBy : Stage → Nat → List Timer
  | .active activity _, time => activity.dueBy time
  | .ended _, _ => []

/-- What a run may still do before the clock goes on: turns of children that it has left, and waits
that are over by some time. -/
def Stage.atOnce (engine : Engine) (time : Nat) (stage : Stage) : Nat × Nat :=
  (stage.allowance engine .ofTurns, (stage.dueBy time).length)

variable {engine : Engine} {root : Node} {s : RunState} {stage : Stage} {activity : Activity}
  {live : NodeState} {bound : Option TimeLimit}

/-- When a wait is over, fewer waits are over by then: what begins to wait is over later. -/
theorem dueBy_resume {timer : Timer} {s' : RunState} {next : Activity}
    (distinct : root.ids.Nodup) (fits : s.context.Fits live root activity) (alive : Alive s live)
    (own : activity.tickets.Nodup) (given : ∀ ticket ∈ activity.tickets, ticket < s.world.tickets)
    (tried : s.context.cancelled = false → activity.Tried s.context root.ids)
    (late : timer ∈ activity.dueBy s.now)
    (resumed : resume engine ⟨timer.ticket, false⟩ s activity = (s', .waiting next)) :
    (next.dueBy s.now).length < (activity.dueBy s.now).length := by
  have member : timer ∈ activity.timers := (List.mem_filter.1 late).1
  have held : timer.ticket ∈ activity.tickets :=
    Activity.mem_tickets_iff.2 (.inl ⟨timer, member, rfl⟩)
  have now : s'.now = s.now := by
    have advance : Advances engine root.ids s (resume engine ⟨timer.ticket, false⟩ s activity) :=
      advances_resume fits (fun _ => rfl) held own
    rw [resumed] at advance
    exact advance.acts.now
  have kept : ∀ other ∈ next.timers, s'.now < other.due ∨ other ∈ activity.timers := by
    have prevails : Prevails engine Anytime
        (Timed fun now other => now < other.due ∨ other ∈ activity.timers) :=
      prevails_timed waking_anytime .inl
    have covers : Covers _ (resume engine ⟨timer.ticket, false⟩ s activity).1 _ :=
      prevails.resume distinct fits alive held own tried trivial
        (throughout_timed_iff.2 fun other inside => .inr inside)
    rw [resumed] at covers
    exact throughout_timed_iff.1 (covers next rfl)
  have goes : Ticketed (activity.tickets.erase (Bell.mk timer.ticket false).ticket) s.world.tickets
      (resume engine ⟨timer.ticket, false⟩ s activity).1.world.tickets
      (resume engine ⟨timer.ticket, false⟩ s activity).2.tickets := ticketed_resume own given
  rw [resumed] at goes
  have spent : timer ∉ next.timers := by
    intro inside
    rcases goes.known timer.ticket (Activity.mem_tickets_iff.2 (.inl ⟨timer, inside, rfl⟩)) with
      old | new
    · exact absurd rfl (own.mem_erase_iff.1 old).1
    · exact absurd (given timer.ticket held) (Nat.not_lt.2 new)
  have subset : next.dueBy s.now ⊆ (activity.dueBy s.now).erase timer := by
    intro other inside
    obtain ⟨inside, due⟩ := List.mem_filter.1 inside
    have early : other.due ≤ s'.now := now ▸ of_decide_eq_true due
    have old : other ∈ activity.timers := (kept other inside).resolve_left (Nat.not_lt.2 early)
    exact (List.mem_erase_of_ne (ne_of_mem_of_not_mem inside spent)).2
      (List.mem_filter.2 ⟨old, due⟩)
  have apart : next.timers.Nodup := (Activity.nodup_timers goes.nodup).1.of_map _
  have fewer : (next.dueBy s.now).length ≤ ((activity.dueBy s.now).erase timer).length :=
    (List.subperm_of_subset (apart.filter _) subset).length_le
  have one : ((activity.dueBy s.now).erase timer).length + 1 = (activity.dueBy s.now).length :=
    List.length_erase_add_one late
  omega

/-- When the turn of a child has come and is taken, there is one turn less. -/
theorem turns_resume_lt {context : Context} (fits : context.Fits live root activity)
    (own : activity.tickets.Nodup) {bell : Bell} (turn : bell.ticket ∈ activity.doors) :
    (resume engine bell s activity).2.allowance engine .ofTurns <
      activity.allowance engine .ofTurns := by
  obtain ⟨part, inside, holds⟩ := fits.exists_holds (ticket_mem_of_door turn)
  have here : Pays .ofTurns (part.allowance engine .ofTurns) s (resume engine bell s part).1
      ((resume engine bell s part).2.allowance engine .ofTurns + price .ofTurns part) :=
    pays_own holds s
  have paid := pays_around inside holds.held own here
  -- The ticket of a turn is not that of a wait for any time.
  have apart {timer : Timer} (waits : part.timer? = some timer) : timer.ticket ≠ bell.ticket :=
    fun same => (Activity.nodup_timers own).2
      (List.mem_map_of_mem (inside.timers_subset (Activity.mem_timers_of_timer? waits)))
      (same ▸ turn)
  have price : price .ofTurns part = 1 := by
    cases holds with
    | calling | pausing | polling => exact absurd rfl (apart rfl)
    | turn => rfl
  have fewer := paid.le_of_free fun _ => rfl
  rw [price] at fewer
  exact fewer

/-- What comes next by the clock ends a run, or its clock goes on, or it has less to do at once. -/
theorem Punctual.proceeds (h : Punctual engine root s (.active activity bound))
    (distinct : root.ids.Nodup) {due : Nat} {stimulus : Stimulus}
    (next : next? s.now s.context.cancelled (.active activity bound) = some (due, stimulus)) :
    let q := Run.step engine (later s due) (.active activity bound) stimulus
    (∃ outcome, q.2 = .ended outcome) ∨ s.now < q.1.now ∨
      q.1.now = s.now ∧ WellFoundedRelation.rel (q.2.atOnce engine s.now)
        ((Stage.active activity bound).atOnce engine s.now) := by
  intro q
  obtain ⟨sound, tried, -, ahead⟩ := h
  have now : q.1.now = max s.now due := (acts_step_deaf (sound.later due) stimulus).now
  rcases Nat.lt_or_ge s.now due with forward | back
  · exact .inr (.inl (now ▸ Nat.lt_of_lt_of_le forward (Nat.le_max_right ..)))
  have stays : q.1.now = s.now := now.trans (Nat.max_eq_left back)
  have same : (later s due).now = s.now := Nat.max_eq_left back
  cases sound with
  | @active _ _ live fits alive own given =>
    -- What goes on either ends, or waits for what is left.
    have goes (bell : Bell) (less : ∀ s' next,
        resume engine bell (later s due) activity = (s', .waiting next) →
        WellFoundedRelation.rel ((Stage.active next bound).atOnce engine s.now)
          ((Stage.active activity bound).atOnce engine s.now)) :
        (∃ outcome, (ofProgress bound (resume engine bell (later s due) activity)).2 =
          .ended outcome) ∨
        WellFoundedRelation.rel
          ((ofProgress bound (resume engine bell (later s due) activity)).2.atOnce engine s.now)
          ((Stage.active activity bound).atOnce engine s.now) := by
      generalize resume engine bell (later s due) activity = p at less
      obtain ⟨s', progress⟩ := p
      cases progress with
      | ended outcome => exact .inl ⟨_, rfl⟩
      | waiting next => exact .inr (less s' next rfl)
    refine Or.imp_right (fun less => .inr ⟨stays, less⟩) ?_
    cases comes_of_next? next with
    | @past timer first late =>
      refine goes _ fun s' next resumed => ?_
      have member : timer ∈ activity.dueBy (later s s.now).now :=
        List.mem_filter.2 ⟨mem_of_firstTimer? first, decide_eq_true (same.symm ▸ late)⟩
      have fewer := dueBy_resume (s := later s s.now) distinct fits alive own given tried member
        resumed
      have turns : (resume engine ⟨timer.ticket, false⟩ (later s s.now) activity).2.allowance engine
          .ofTurns ≤ activity.allowance engine .ofTurns :=
        (pays_resume engine .ofTurns _ fits own _).le_of_free fun _ => rfl
      rw [same] at fewer
      rw [resumed] at turns
      exact Prod.lex_def.2 ((Nat.lt_or_eq_of_le turns).imp_right fun equal => ⟨equal, fewer⟩)
    | @turn ticket first =>
      refine goes _ fun s' next resumed => .left _ _ ?_
      have turns : (resume engine ⟨ticket, false⟩ (later s s.now) activity).2.allowance engine
          .ofTurns < activity.allowance engine .ofTurns :=
        turns_resume_lt fits own (List.mem_of_head? first)
      rw [resumed] at turns
      exact turns
    | heed dead nap =>
      obtain ⟨result, ended, -⟩ := ends_of_heed (later s s.now) fits own dead nap bound
      exact .inl ⟨_, ended⟩
    | wait first early => exact absurd early (Nat.not_lt.2 back)
    | expire limited =>
      subst limited
      exact .inl ⟨_, rfl⟩

/-- Played long enough, a run has ended or its clock has passed some time. -/
def Passes (engine : Engine) (time : Nat) (actions : List Action) (p : RunState × Stage) : Prop :=
  ∃ enough, ∀ steps, enough ≤ steps →
    (∃ outcome, (play engine steps actions p).2 = .ended outcome) ∨
      time < (play engine steps actions p).1.now

/-- The clock of a run does not go back. -/
theorem Punctual.now_le_play {p : RunState × Stage} (h : Punctual engine root p.1 p.2)
    (distinct : root.ids.Nodup) (steps : Nat) (actions : List Action) :
    p.1.now ≤ (Run.play engine steps actions p).1.now := by
  induction steps generalizing actions p with
  | zero => exact Nat.le_refl _
  | succ steps ih =>
    obtain ⟨s, stage⟩ := p
    have taken (time : Nat) (stimulus : Stimulus) :
        s.now ≤ (Run.step engine (later s time) stage stimulus).1.now := by
      rw [(acts_step_deaf (h.sound.later time) stimulus).now]
      exact Nat.le_max_left ..
    simp only [Run.play]
    split
    · exact Nat.le_refl _
    · next due stimulus comes => exact Nat.le_trans (taken _ _) (ih (h.next distinct comes) [])
    · next due stimulus action rest comes =>
      split
      · next sooner =>
        exact Nat.le_trans (taken _ _) (ih (h.act distinct comes sooner action.effects) rest)
      · exact Nat.le_trans (taken _ _) (ih (h.next distinct comes) (action :: rest))

variable {time : Nat} {actions rest : List Action} {p q : RunState × Stage}

/-- What has ended has passed any time. -/
theorem passes_of_ended {outcome : Except Fault RunResult} (ended : p.2 = .ended outcome) :
    Passes engine time actions p := by
  obtain ⟨s, stage⟩ := p
  cases ended
  exact ⟨0, fun steps _ => .inl ⟨outcome, by rw [play_ended]⟩⟩

/-- What is past a time has passed it. -/
theorem passes_of_lt (h : Punctual engine root p.1 p.2) (distinct : root.ids.Nodup)
    (past : time < p.1.now) : Passes engine time actions p :=
  ⟨0, fun steps _ => .inr (Nat.lt_of_lt_of_le past (h.now_le_play distinct steps actions))⟩

/-- A run passes a time if it does so after its next step. -/
theorem passes_of_step (taken : ∀ n, play engine (n + 1) actions p = play engine n rest q)
    (h : Passes engine time rest q) : Passes engine time actions p := by
  obtain ⟨enough, passes⟩ := h
  refine ⟨enough + 1, fun steps more => ?_⟩
  obtain ⟨n, rfl⟩ : ∃ n, steps = n + 1 := Nat.exists_eq_add_one.2 (by omega)
  rw [taken]
  exact passes n (by omega)

/-- What is left to a run before its clock has passed some time: actions from outside, time, and
what it may do at once. -/
def leftUntil (engine : Engine) (time : Nat) (actions : List Action) (p : RunState × Stage) :
    Nat × Nat × Nat × Nat :=
  (actions.length, time + 1 - p.1.now, p.2.atOnce engine p.1.now)

/-- A run by the clock ends or passes any time: each step takes one of the actions from outside, or
some of the time, or something of what may be done at once. -/
theorem Punctual.passes (h : Punctual engine root p.1 p.2) (distinct : root.ids.Nodup) (time : Nat)
    (actions : List Action) : Passes engine time actions p := by
  have founded : WellFounded (WellFoundedRelation.rel (α := Nat × Nat × Nat × Nat)) :=
    WellFoundedRelation.wf
  generalize left : leftUntil engine time actions p = rank
  induction rank using founded.induction generalizing actions p with
  | _ rank ih =>
    subst left
    obtain ⟨s, stage⟩ := p
    by_cases past : time < s.now
    · exact passes_of_lt h distinct past
    cases stage with
    | ended outcome => exact passes_of_ended rfl
    | active activity bound =>
      obtain ⟨due, stimulus, comes⟩ : ∃ due stimulus,
          next? s.now s.context.cancelled (.active activity bound) = some (due, stimulus) := by
        cases h.sound with
        | active fits => exact exists_next? (tickets_ne_nil fits) s.now s.context.cancelled bound
      have clock : Passes engine time actions
          (Run.step engine (later s due) (.active activity bound) stimulus) := by
        rcases h.proceeds distinct comes with ended | goes
        · exact passes_of_ended ended.choose_spec
        refine ih _ (.right _ ?_) (h.next distinct comes) actions rfl
        rcases goes with goes | ⟨stays, fewer⟩
        · have here : s.now ≤ time := Nat.not_lt.1 past
          exact .left _ _ (Nat.sub_lt_sub_left (Nat.lt_succ_of_le here) goes)
        · dsimp only
          rw [stays]
          exact .right _ fewer
      cases actions with
      | nil => exact passes_of_step (fun n => by simp only [Run.play, comes]; rfl) clock
      | cons action rest =>
        by_cases sooner : action.time < due
        · refine passes_of_step (fun n => by simp only [Run.play, comes, if_pos sooner]; rfl) ?_
          refine ih _ (.left _ _ ?_) (h.act distinct comes sooner action.effects) rest rfl
          exact Nat.lt_succ_self _
        · exact passes_of_step (fun n => by simp only [Run.play, comes, if_neg sooner]; rfl) clock

end Run

end Stepwise

import Stepwise.Proofs.Run.Cancellation
import Stepwise.Proofs.Run.Fulfilled
import Stepwise.Proofs.Run.Spending

/-!
# Patient trees come to an end

A patient tree waits for the answers of its tasks, between their attempts and for the turns of
children, and for nothing else. Each of these waits is paid for from the allowance of the tree, so
each one that is over brings down what is left of it (`waits_resume`). Hence a run of such a tree
that is not cancelled ends by the clock, after as many steps as it has waits left and there are
actions from outside (`ends_play`).
-/

namespace Stepwise

namespace Run

variable {engine : Engine} {root : Node} {limit : Option Duration} {s s₀ : RunState} {stage : Stage}

/-! ## The tickets of a run -/

/-- The tickets that a run holds are pairwise distinct and have all been given out. -/
def Stage.Numbered (given : Nat) : Stage → Prop
  | .active activity _ => activity.tickets.Nodup ∧ ∀ ticket ∈ activity.tickets, ticket < given
  | .ended _ => True

/-- The end of a step holds the tickets of its waits. -/
theorem numbered_ofProgress {limit : Option TimeLimit} {old : List Nat} {low : Nat}
    {p : RunState × Progress} (ticketed : Ticketed old low p.1.world.tickets p.2.tickets) :
    (ofProgress limit p).2.Numbered (ofProgress limit p).1.world.tickets := by
  obtain ⟨s, progress⟩ := p
  cases progress with
  | ended outcome => exact trivial
  | waiting activity =>
    refine ⟨ticketed.nodup, fun ticket member => ?_⟩
    show ticket < s.flush.world.tickets
    rw [s.tickets_flush]
    exact ticketed.given ticket member

/-- No step of a run makes it hold a ticket twice. -/
theorem numbered_step (h : stage.Numbered s.world.tickets) (stimulus : Stimulus) :
    (step engine s stage stimulus).2.Numbered (step engine s stage stimulus).1.world.tickets := by
  cases stage with
  | ended outcome => exact trivial
  | active activity limit =>
    obtain ⟨own, given⟩ := h
    cases stimulus with
    | wake bell => exact numbered_ofProgress (ticketed_resume own given)
    | heed =>
      simp only [step, heed]
      split
      · exact numbered_ofProgress (ticketed_resume own given)
      · exact ⟨own, given⟩
    | expire =>
      cases limit with
      | none => exact ⟨own, given⟩
      | some limit => exact trivial
    | act effects => exact ⟨own, fun ticket member => s.tickets_applyAll effects ▸ given ticket member⟩

/-- This is so wherever a run has come to, and from whatever context it set out. -/
theorem Reaches.numbered {p : RunState × Stage} (h : Reaches engine root limit s₀ p) :
    p.2.Numbered p.1.world.tickets := by
  induction h with
  | refl => exact numbered_ofProgress (ticketed_start root s₀)
  | tail _ move ih =>
    cases move with
    | step s stage time stimulus => exact numbered_step (s := later s time) ih stimulus

end Run

namespace Forecast

open Run

variable {answer : Call → Except String Json} {origin now : Standings} {engine : Engine}
  {root node : Node} {activity : Activity} {s s₀ : RunState} {limit : Option Duration}

/-! ## Waits that are over -/

/-- Of the activities inside one another some one waits with a ticket that they hold, for an answer,
for its next attempt or for the turn of a child. -/
theorem Underway.exists_holds (underway : Underway answer origin now node activity) {ticket : Nat}
    (held : ticket ∈ activity.tickets) : ∃ part : Activity,
      part.Inside activity ∧ part.Holds ticket ∧ price .ofWaits part = 1 := by
  induction underway with
  | calling =>
    cases List.mem_singleton.1 held
    exact ⟨_, .self, .calling, rfl⟩
  | pausing =>
    cases List.mem_singleton.1 held
    exact ⟨_, .self, .pausing, rfl⟩
  | sequence _ _ _ _ _ _ _ ih =>
    obtain ⟨part, inside, waits⟩ := ih held
    exact ⟨part, .sequence inside, waits⟩
  | parallel _ _ _ _ _ _ entry _ ih =>
    rcases Activity.mem_tickets_parallel.1 held with inLanes | rfl
    · obtain ⟨lane, member, inLane⟩ := List.mem_flatMap.1 inLanes
      cases lane with
      | ended child slot => cases inLane
      | running child activity =>
        obtain ⟨part, inside, waits⟩ := ih child activity member inLane
        exact ⟨part, .parallel member inside, waits⟩
    · obtain ⟨child, rest, rfl⟩ := List.exists_cons_of_ne_nil (entry rfl)
      exact ⟨_, .self, .turn, rfl⟩

/-- Each wait of a patient tree that is over leaves fewer of them. -/
theorem waits_resume (underway : Underway answer origin now node activity)
    (own : activity.tickets.Nodup) {bell : Bell} (held : bell.ticket ∈ activity.tickets)
    (s : RunState) :
    (resume engine bell s activity).2.allowance engine .ofWaits <
      activity.allowance engine .ofWaits := by
  obtain ⟨part, inside, holds, price⟩ := underway.exists_holds held
  have paid := pays_around inside holds.held own
    (pays_own holds s : Pays .ofWaits _ s (resume engine bell s part).1 _)
  have fewer := paid.le_of_free fun _ => rfl
  rw [price] at fewer
  exact fewer

/-- What is on its way to what is foretold waits for something. -/
theorem tickets_of_underway (underway : Underway answer origin now node activity) :
    activity.tickets ≠ [] := by
  induction underway with
  | calling | pausing => exact List.cons_ne_nil _ _
  | sequence _ _ _ _ _ _ _ ih => exact ih
  | parallel _ _ _ _ _ _ _ busy ih => exact Activity.tickets_parallel_ne_nil busy ih

/-! ## Runs by the clock -/

/-- A step by the clock leaves a run of a patient tree with fewer waits, unless it cancels it. -/
theorem waits_next (underway : Underway answer origin now node activity)
    (own : activity.tickets.Nodup) {time due : Nat} {timeLimit : Option TimeLimit}
    {stimulus : Stimulus}
    (next : next? time false (.active activity timeLimit) = some (due, stimulus))
    (live : (step engine s (.active activity timeLimit) stimulus).1.context.cancelled = false) :
    (step engine s (.active activity timeLimit) stimulus).2.allowance engine .ofWaits <
      activity.allowance engine .ofWaits := by
  have woken {ticket : Nat} (held : ticket ∈ activity.tickets) :
      (step engine s (.active activity timeLimit) (.wake ⟨ticket, false⟩)).2.allowance engine
        .ofWaits < activity.allowance engine .ofWaits :=
    Nat.lt_of_le_of_lt ((pays_ofProgress timeLimit _).le_of_free fun _ => rfl)
      (waits_resume underway own held s)
  cases comes_of_next? next with
  | past first | wait first => exact woken (ticket_mem_of_firstTimer? first)
  | turn first => exact woken (ticket_mem_of_door (List.mem_of_head? first))
  | heed dead => cases dead
  | @expire bound limited =>
    subst limited
    cases (dead_expire bound s).symm.trans live

/-- A run of a patient tree ends by the clock if it is not cancelled on the way: each step takes one
of the waits that are left or one of the actions. -/
theorem ends_play (answers : engine.executor.Answers answer) (patient : root.Patient)
    (distinct : root.ids.Nodup) {steps : Nat} {actions : List Action} {p : RunState × Stage}
    (h : Reaches engine root limit s₀ p)
    (enough : p.2.allowance engine .ofWaits + actions.length ≤ steps)
    (live : ∀ n, (play engine n actions p).1.context.cancelled = false) :
    ∃ outcome, (play engine steps actions p).2 = .ended outcome := by
  induction steps generalizing actions p with
  | zero =>
    obtain ⟨s, stage⟩ := p
    cases stage with
    | ended outcome => exact ⟨outcome, rfl⟩
    | active activity timeLimit =>
      have underway := (keeps_of_reaches h answers patient distinct (live 0)).foretold
      obtain ⟨ticket, held⟩ := List.exists_mem_of_ne_nil _ (tickets_of_underway underway)
      have fewer : (resume engine ⟨ticket, false⟩ s activity).2.allowance engine .ofWaits <
          activity.allowance engine .ofWaits := waits_resume underway h.numbered.1 held s
      have none : activity.allowance engine .ofWaits + actions.length ≤ 0 := enough
      omega
  | succ steps ih =>
    obtain ⟨s, stage⟩ := p
    cases stage with
    | ended outcome => exact ⟨outcome, by rw [play_ended]⟩
    | active activity timeLimit =>
      have alive : s.context.cancelled = false := live 0
      have underway := (keeps_of_reaches h answers patient distinct alive).foretold
      have enough : activity.allowance engine .ofWaits + actions.length ≤ steps + 1 := enough
      obtain ⟨due, stimulus, next⟩ :=
        exists_next? (tickets_of_underway underway) s.now false timeLimit
      -- One step is taken, and the others follow.
      have go {time : Nat} {stimulus : Stimulus} {rest : List Action}
          (played : ∀ n, play engine (n + 1) actions (s, .active activity timeLimit) =
            play engine n rest (step engine (later s time) (.active activity timeLimit) stimulus))
          (less : (step engine (later s time) (.active activity timeLimit)
              stimulus).1.context.cancelled = false →
            (step engine (later s time) (.active activity timeLimit) stimulus).2.allowance engine
              .ofWaits + rest.length ≤ steps) :
          ∃ outcome, (play engine (steps + 1) actions (s, .active activity timeLimit)).2 =
            .ended outcome := by
        have live (n : Nat) := played n ▸ live (n + 1)
        rw [played]
        exact ih (h.tail (.any ..)) (less (live 0)) live
      have clock (alive : (step engine (later s due) (.active activity timeLimit)
          stimulus).1.context.cancelled = false) := waits_next underway h.numbered.1 next alive
      cases actions with
      | nil =>
        refine go (fun n => by simp only [play, alive, next]; rfl) fun alive => ?_
        have := clock alive
        simp only [List.length_nil] at enough ⊢
        omega
      | cons action rest =>
        by_cases sooner : action.time < due
        · refine go (fun n => by simp only [play, alive, next, if_pos sooner]; rfl) fun _ => ?_
          show activity.allowance engine .ofWaits + rest.length ≤ steps
          rw [List.length_cons] at enough
          omega
        · refine go (fun n => by simp only [play, alive, next, if_neg sooner]; rfl) fun alive => ?_
          have := clock alive
          omega

end Forecast

end Stepwise

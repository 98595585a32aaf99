import Stepwise.Proofs.Run.Schedule

/-!
# What comes next by the clock

By the clock a run that waits takes the waits that are over by now, then the turns of children that
have come, then its notice of a cancellation, and only then lets time pass until the next wait is
over or its time is up. `Comes` says so of each stimulus that comes next, and something always does
(`exists_next?`).
-/

namespace Stepwise.Run

variable {root : Node} {context : Context} {live : NodeState} {activity : Activity}
  {timeLimit : Option TimeLimit} {now : Nat} {cancelled : Bool}

/-- A waiting run waits for something. -/
theorem tickets_ne_nil {live : NodeState} {node : Node} {activity : Activity}
    (h : context.Fits live node activity) : activity.tickets ≠ [] := by
  induction h with
  | calling => exact List.cons_ne_nil _ _
  | pausing => exact List.cons_ne_nil _ _
  | polling => exact List.cons_ne_nil _ _
  | sequence _ _ _ _ _ _ ih => exact ih
  | branch _ _ _ _ _ ih => exact ih
  | loop _ _ _ _ _ _ ih => exact ih
  | parallel _ _ _ _ _ _ _ _ busy ih => exact Activity.tickets_parallel_ne_nil busy ih

/-- The timer that is over first is one of those of the activity. -/
theorem mem_of_firstTimer? {activity : Activity} {timer : Timer}
    (first : activity.firstTimer? = some timer) : timer ∈ activity.timers := by
  have among (timer : Timer) (rest : List Timer) :
      rest.foldl (fun best t =>
        if t.due < best.due ∨ (t.due = best.due ∧ t.ticket < best.ticket) then t else best) timer ∈
        timer :: rest := by
    induction rest generalizing timer with
    | nil => exact List.mem_cons_self
    | cons next rest ih =>
      rw [List.foldl_cons]
      rcases List.mem_cons.1 (ih _) with same | member
      · rw [same]
        split
        · exact List.mem_cons_of_mem _ List.mem_cons_self
        · exact List.mem_cons_self
      · exact List.mem_cons_of_mem _ (List.mem_cons_of_mem _ member)
  unfold Activity.firstTimer? at first
  split at first
  · cases first
  · next timer rest htimers =>
    rw [htimers, ← Option.some.inj first]
    exact among timer rest

/-- No wait is over before the one that is over first. -/
theorem firstTimer?_le {timer : Timer} (first : activity.firstTimer? = some timer) :
    ∀ other ∈ activity.timers, timer.due ≤ other.due := by
  have least (timer : Timer) (rest : List Timer) : ∀ other ∈ timer :: rest,
      (rest.foldl (fun best t =>
        if t.due < best.due ∨ (t.due = best.due ∧ t.ticket < best.ticket) then t else best)
          timer).due ≤ other.due := by
    induction rest generalizing timer with
    | nil =>
      intro other member
      rw [List.mem_singleton.1 member]
      exact Nat.le_refl _
    | cons next rest ih =>
      intro other member
      rw [List.foldl_cons]
      split
      · next sooner =>
        have best := ih next
        rcases List.mem_cons.1 member with rfl | member
        · have := best next List.mem_cons_self
          omega
        · exact best other member
      · next notSooner =>
        have best := ih timer
        rcases List.mem_cons.1 member with rfl | member
        · exact best other List.mem_cons_self
        · rcases List.mem_cons.1 member with rfl | member
          · have := best timer List.mem_cons_self
            omega
          · exact best other (List.mem_cons_of_mem _ member)
  unfold Activity.firstTimer? at first
  split at first
  · cases first
  · next timer rest htimers =>
    rw [htimers, ← Option.some.inj first]
    exact least timer rest

/-- Where there are waits, one of them is over first. -/
theorem firstTimer?_eq_some {activity : Activity} {timer : Timer}
    (member : timer ∈ activity.timers) :
    ∃ first, activity.firstTimer? = some first := by
  unfold Activity.firstTimer?
  split
  · next none =>
    rw [none] at member
    cases member
  · exact ⟨_, rfl⟩

theorem ticket_mem_of_firstTimer? {timer : Timer} (first : activity.firstTimer? = some timer) :
    timer.ticket ∈ activity.tickets :=
  Activity.mem_tickets_iff.2 (.inl ⟨timer, mem_of_firstTimer? first, rfl⟩)

theorem ticket_mem_of_door {ticket : Nat} (turn : ticket ∈ activity.doors) :
    ticket ∈ activity.tickets := Activity.mem_tickets_iff.2 (.inr turn)

theorem mem_of_firstNap? {activity : Activity} {ticket : Nat}
    (first : activity.firstNap? = some ticket) : ticket ∈ activity.tickets :=
  activity.naps_subset_tickets (List.min?_mem first)

/-- What comes next by the clock for a run that waits, and when. -/
inductive Comes (activity : Activity) (timeLimit : Option TimeLimit) (now : Nat)
    (cancelled : Bool) :
    Nat → Stimulus → Prop
  /-- A wait is over by now. -/
  | past {timer : Timer} (first : activity.firstTimer? = some timer) (late : timer.due ≤ now) :
      Comes activity timeLimit now cancelled now (.wake ⟨timer.ticket, false⟩)
  /-- The turn of a child has come. -/
  | turn {ticket : Nat} (first : activity.doors.head? = some ticket) :
      Comes activity timeLimit now cancelled now (.wake ⟨ticket, false⟩)
  | heed {ticket : Nat} (dead : cancelled = true) (nap : activity.firstNap? = some ticket) :
      Comes activity timeLimit now cancelled now .heed
  /-- Time passes until a wait is over. -/
  | wait {timer : Timer} (first : activity.firstTimer? = some timer) (ahead : now < timer.due) :
      Comes activity timeLimit now cancelled timer.due (.wake ⟨timer.ticket, false⟩)
  | expire {bound : TimeLimit} (limited : timeLimit = some bound)
      (before : ∀ timer ∈ activity.timers, bound.due < timer.due) :
      Comes activity timeLimit now cancelled bound.due .expire

/-- What comes at once by the clock. -/
theorem comes_of_pressing? {stimulus : Stimulus}
    (pressing : pressing? now cancelled activity = some stimulus) :
    Comes activity timeLimit now cancelled now stimulus := by
  unfold pressing? at pressing
  split at pressing
  · next timer past =>
    cases pressing
    obtain ⟨first, late⟩ := Option.filter_eq_some_iff.1 past
    exact .past first (of_decide_eq_true late)
  · split at pressing
    · next ticket turn =>
      cases pressing
      exact .turn turn
    · split at pressing
      · next both =>
        cases pressing
        obtain ⟨dead, nap⟩ := Bool.and_eq_true_iff.1 both
        obtain ⟨ticket, first⟩ := Option.isSome_iff_exists.1 nap
        exact .heed dead first
      · cases pressing

/-- If nothing comes at once, no child has its turn and no wait is over. -/
theorem ahead_of_pressing? (none : pressing? now cancelled activity = none) :
    activity.doors = [] ∧ ∀ timer, activity.firstTimer? = some timer → now < timer.due := by
  unfold pressing? at none
  split at none
  · cases none
  · next early =>
    split at none
    · cases none
    · next closed =>
      refine ⟨List.head?_eq_none_iff.1 closed, fun timer first => ?_⟩
      rw [first, Option.filter_eq_none_iff] at early
      have late := early timer rfl
      simpa using late

/-- What is said to come next comes. -/
theorem comes_of_next? {due : Nat} {stimulus : Stimulus}
    (next : next? now cancelled (.active activity timeLimit) = some (due, stimulus)) :
    Comes activity timeLimit now cancelled due stimulus := by
  simp only [next?] at next
  split at next
  · next pressing =>
    cases next
    exact comes_of_pressing? pressing
  · next none =>
    obtain ⟨-, ahead⟩ := ahead_of_pressing? none
    split at next
    · next timer bound first =>
      split at next
      · cases next
        exact .wait first (ahead timer first)
      · next before =>
        cases next
        exact .expire rfl fun other member =>
          Nat.lt_of_lt_of_le (Nat.lt_of_not_le before) (firstTimer?_le first other member)
    · next timer first =>
      cases next
      exact .wait first (ahead timer first)
    · next bound none =>
      cases next
      refine .expire rfl fun other member => ?_
      obtain ⟨first, some⟩ := firstTimer?_eq_some member
      rw [none] at some
      cases some
    · cases next

/-- By the clock a cancellation is always heard. -/
theorem isDeaf_of_next? {stage : Stage} {due : Nat} {stimulus : Stimulus}
    (next : next? now cancelled stage = some (due, stimulus)) : stimulus.isDeaf = false := by
  cases stage with
  | ended outcome => cases next
  | active activity limit => cases comes_of_next? next <;> rfl

/-- What a run comes to by the clock is among what it may come to. -/
theorem leads_play {engine : Engine} {manner : Manner} (steps : Nat) (actions : List Action)
    (p : RunState × Stage) :
    Leads engine manner p (play engine steps actions p) := by
  induction steps generalizing actions p with
  | zero => exact .refl
  | succ steps ih =>
    obtain ⟨s, stage⟩ := p
    have moves {due : Nat} {stimulus : Stimulus} (heard : stimulus.isDeaf = false) :
        Move engine manner (s, stage) (step engine (later s due) stage stimulus) :=
      .step s stage due stimulus fun _ _ => heard
    simp only [play]
    split
    · exact .refl
    · next next => exact (ih _ _).head (moves (isDeaf_of_next? next))
    · next next =>
      split
      · exact (ih _ _).head (moves rfl)
      · exact (ih _ _).head (moves (isDeaf_of_next? next))

/-- By the clock something comes next for a run that waits: a wait that is over, the turn of a
child, the notice of a cancellation, or the end of the time of the run. -/
theorem exists_next? (waits : activity.tickets ≠ []) (now : Nat) (cancelled : Bool)
    (timeLimit : Option TimeLimit) :
    ∃ due stimulus, next? now cancelled (.active activity timeLimit) = some (due, stimulus) := by
  cases pressing : pressing? now cancelled activity with
  | some stimulus => exact ⟨now, stimulus, by simp only [next?, pressing]⟩
  | none =>
    -- Without a turn that has come there is a wait to be over.
    obtain ⟨ticket, held⟩ := List.exists_mem_of_ne_nil _ waits
    have kinds := Activity.mem_tickets_iff.1 held
    rw [(ahead_of_pressing? pressing).1] at kinds
    obtain ⟨timer, member, -⟩ := kinds.resolve_right List.not_mem_nil
    obtain ⟨first, earliest⟩ := firstTimer?_eq_some member
    simp only [next?, pressing, earliest]
    cases timeLimit with
    | none => exact ⟨_, _, rfl⟩
    | some bound =>
      by_cases before : first.due ≤ bound.due
      · exact ⟨_, _, if_pos before⟩
      · exact ⟨_, _, if_neg before⟩

end Stepwise.Run

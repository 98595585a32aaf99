import Stepwise.Proofs.Run.Aside

/-!
# Executions of nodes

A node that is started in some state is in an execution from then on: it goes on when one of its
waits is over, and in between others go on aside. What holds of all executions holds of a node
wherever it stands in a tree, whatever runs beside it, and however often it is started.
-/

namespace Stepwise

theorem Activity.Inside.timers_subset {wait activity : Activity} (h : Inside wait activity) :
    wait.timers ⊆ activity.timers := by
  induction h with
  | self => exact List.Subset.refl _
  | sequence _ ih | branch _ ih | loop _ ih =>
    rw [timers]
    exact ih
  | parallel lane _ ih =>
    rw [timers, timersOfLanes_eq]
    exact fun timer member => List.mem_flatMap.2 ⟨_, lane, ih member⟩

namespace Run

/-- When the wait of a ticket in an activity may be over. -/
abbrev Wakes := RunState → Activity → Nat → Prop

/-- A wait may be over at any time. -/
def Anytime : Wakes := fun _ _ _ => True

/-- A wait is over when it is due. A cancellation may cut it short. -/
def OnTime : Wakes := fun s activity ticket =>
  s.context.cancelled = false → ∀ timer ∈ activity.timers, timer.ticket = ticket → timer.due = s.now

/-- A wait inside another may be over with it, and a cancellation may cut any wait short. -/
structure Waking (wakes : Wakes) : Prop where
  inherited : ∀ {s : RunState} {part activity : Activity} {ticket : Nat}, part.Inside activity →
    wakes s activity ticket → wakes s part ticket
  cutShort : ∀ {s : RunState} {activity : Activity} {ticket : Nat}, s.context.cancelled = true →
    wakes s activity ticket

/-- Waits that may be over at any time are over with those inside and cut short. -/
theorem waking_anytime : Waking Anytime := ⟨fun _ _ => trivial, fun _ => trivial⟩

/-- So are waits that are over when they are due. -/
theorem waking_onTime : Waking OnTime where
  inherited inside awake live timer member := awake live timer (inside.timers_subset member)
  cutShort dead live := absurd dead (ne_true_of_eq_false live)

/-- The execution of a node that was started in some state has come to some progress. Its waits
may be over before or after it has heard of a cancellation. -/
inductive Execution (engine : Engine) (wakes : Wakes) (node : Node) (s₀ : RunState) :
    RunState × Progress → Prop
  | starts : Execution engine wakes node s₀ (start engine s₀ node)
  | goesOn {s s' : RunState} {activity : Activity} {bell : Bell}
      (before : Execution engine wakes node s₀ (s, .waiting activity)) (aside : Aside node.ids s s')
      (held : bell.ticket ∈ activity.tickets) (awake : wakes s' activity bell.ticket) :
      Execution engine wakes node s₀ (resume engine bell s' activity)

variable {engine : Engine} {wakes : Wakes} {node : Node} {s₀ : RunState}

namespace Execution

/-- The waits of an execution have tickets of their own. -/
theorem ticketed {p : RunState × Progress} (h : Execution engine wakes node s₀ p) :
    p.2.tickets.Nodup ∧ ∀ ticket ∈ p.2.tickets, ticket < p.1.world.tickets := by
  induction h with
  | starts =>
    have given : Ticketed [] s₀.world.tickets (start engine s₀ node).1.world.tickets
        (start engine s₀ node).2.tickets := ticketed_start node s₀
    exact ⟨given.nodup, given.given⟩
  | @goesOn _ s' activity bell _ aside _ _ ih =>
    obtain ⟨distinct, given⟩ := ih
    have goes : Ticketed (activity.tickets.erase bell.ticket) s'.world.tickets
        (resume engine bell s' activity).1.world.tickets
        (resume engine bell s' activity).2.tickets :=
      ticketed_resume distinct fun ticket member =>
        Nat.lt_of_lt_of_le (given ticket member) aside.tickets_le
    exact ⟨goes.nodup, goes.given⟩

end Execution

end Run

end Stepwise

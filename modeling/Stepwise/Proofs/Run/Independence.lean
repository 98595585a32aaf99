import Stepwise.Proofs.Table
import Stepwise.Proofs.Run.Counts
import Stepwise.Proofs.Run.Waits

/-!
# Runs whose schedules do not matter

How long the answers of a patient tree take, how many children of its blocks may run at a time and
what comes first make no difference to what the tree comes to: two runs that are not cancelled end
with the same outcome, the same results and the same states, errors and retries of nodes
(`schedule_independent`).
-/

namespace Stepwise

namespace Forecast

open Run

variable {answer : Call → Except String Json} {engine : Engine} {root : Node} {context : Context}
  {s : RunState} {outcome : Except Fault RunResult}

/-- The run of a tree from some context may come to an end in a state without being cancelled. This
leaves time limits out that have passed, as they cancel the run too, and cancellations last. -/
def Finishes (engine : Engine) (root : Node) (context : Context) (s : RunState)
    (outcome : Except Fault RunResult) : Prop :=
  s.context.cancelled = false ∧
    ∃ world limit, Reaches engine root limit ⟨world, context⟩ (s, .ended outcome)

instance (stage : Stage) : Decidable (∃ outcome, stage = .ended outcome) :=
  match stage with
  | .ended outcome => isTrue ⟨outcome, rfl⟩
  | .active .. => isFalse nofun

/-- Wherever a run of a tree from some context has come to and whoever acts on it, it ends by the
clock unless it is cancelled. -/
def Terminates (engine : Engine) (root : Node) (context : Context) : Prop :=
  ∀ world limit p actions, Reaches engine root limit ⟨world, context⟩ p →
    (∀ n, (play engine n actions p).1.context.cancelled = false) →
    ∃ n s outcome, play engine n actions p = (s, .ended outcome) ∧
      Finishes engine root context s outcome

section

variable (answers : engine.executor.Answers answer) (patient : root.Patient)
  (distinct : root.ids.Nodup)

include answers patient distinct

/-- A run of a patient tree ends by the clock. -/
theorem terminates : Terminates engine root context := by
  intro world limit p actions reached live
  let enough := p.2.allowance engine .ofWaits + actions.length
  obtain ⟨outcome, ended⟩ := ends_play answers patient distinct reached (Nat.le_refl enough) live
  refine ⟨enough, _, outcome, Prod.ext rfl ended, live enough, world, limit, ?_⟩
  rw [← ended]
  exact reached.trans (leads_play enough actions p)

/-- A run that has ended has left every node as foretold, whether it is in the tree or not. -/
theorem standing_of_finishes (h : Finishes engine root context s outcome) (id : String) :
    s.context.standing id = root.leaves answer id (context.standing id) := by
  obtain ⟨live, world, limit, reached⟩ := h
  have keeps := keeps_of_reaches reached answers patient distinct live
  by_cases inside : id ∈ root.ids
  · exact keeps.foretold.2 id inside
  · rw [Node.leaves_of_notMem inside]
    exact keeps.within.apart id inside

/-- A run that finishes has the outcome that is foretold. -/
theorem outcome_of_finishes (h : Finishes engine root context s outcome) :
    outcome = report s (root.verdict answer) := by
  obtain ⟨live, world, limit, reached⟩ := h
  exact (keeps_of_reaches reached answers patient distinct live).foretold.1

/-- A run that finishes leaves its context tidy. -/
theorem tidy_of_finishes (tidy : context.Tidy) (h : Finishes engine root context s outcome) :
    s.context.Tidy := by
  obtain ⟨live, world, limit, reached⟩ := h
  exact (keeps_of_reaches reached answers patient distinct live).within.tidy tidy

end

/-- Two states with the same results and counts report the same. -/
theorem report_congr {s s' : RunState} (results : s.context.results = s'.context.results)
    (counts : s.context.counts = s'.context.counts) (outcome : Except Fault Json) :
    report s outcome = report s' outcome := by
  cases outcome <;> simp only [report, RunResult.ofContext, results, counts]

/-- If outcomes of calls go by the calls alone, two runs of a patient tree from the same context,
with limits on lanes and delays of any kind, end unless they are cancelled, and if they end without
being cancelled they agree on the outcome, on the results and on each node. -/
theorem schedule_independent {engine₁ engine₂ : Engine} {first second : Node}
    (answers₁ : engine₁.executor.Answers answer) (answers₂ : engine₂.executor.Answers answer)
    (patient : first.Patient) (distinct : first.ids.Nodup) (same : first.unlaned = second.unlaned)
    (tidy : context.Tidy) :
    Terminates engine₁ first context ∧ Terminates engine₂ second context ∧
    ∀ s₁ s₂ outcome₁ outcome₂, Finishes engine₁ first context s₁ outcome₁ →
      Finishes engine₂ second context s₂ outcome₂ →
      outcome₁ = outcome₂ ∧ s₁.context.results = s₂.context.results ∧
      ∀ id, s₁.context.state id = s₂.context.state id ∧
        (s₁.context.phase id).error? = (s₂.context.phase id).error? ∧
        (s₁.context.phase id).retries = (s₂.context.phase id).retries := by
  have patient₂ : second.Patient := by
    rw [← Node.patient_unlaned, ← same]
    exact (Node.patient_unlaned first).2 patient
  have distinct₂ : second.ids.Nodup := by
    rw [← Node.ids_unlaned, ← same, Node.ids_unlaned]
    exact distinct
  refine ⟨terminates answers₁ patient distinct, terminates answers₂ patient₂ distinct₂, ?_⟩
  intro s₁ s₂ outcome₁ outcome₂ finishes₁ finishes₂
  have standing (id : String) : s₁.context.standing id = s₂.context.standing id := by
    rw [standing_of_finishes answers₁ patient distinct finishes₁,
      standing_of_finishes answers₂ patient₂ distinct₂ finishes₂, ← Node.leaves_unlaned, same,
      Node.leaves_unlaned]
  have state (id : String) : s₁.context.state id = s₂.context.state id :=
    Context.read_of_standing Phase.state_timeless (standing id)
  have tidy₁ := tidy_of_finishes answers₁ patient distinct tidy finishes₁
  have tidy₂ := tidy_of_finishes answers₂ patient₂ distinct₂ tidy finishes₂
  have results : s₁.context.results = s₂.context.results :=
    tidy₁.results.ext tidy₂.results fun id => congrArg Standing.result (standing id)
  have counts := Context.counts_congr tidy₁.nodes tidy₂.nodes state
  refine ⟨?_, results, fun id => ⟨state id, ?_, ?_⟩⟩
  · rw [outcome_of_finishes answers₁ patient distinct finishes₁,
      outcome_of_finishes answers₂ patient₂ distinct₂ finishes₂, ← Node.verdict_unlaned, same,
      Node.verdict_unlaned]
    exact report_congr results counts _
  · exact Context.read_of_standing Phase.error?_timeless (standing id)
  · exact Context.read_of_standing Phase.retries_timeless (standing id)

/-! ## Two runs of a small tree -/

/-- A task of its own id. -/
def duty (id name : String) (retries : UInt32) : Node :=
  .make id (.task ⟨name, [], [], retries, none, none⟩) []

/-- Three tasks, of which the second is refused at every attempt. -/
def duties : Node :=
  .make "duties" .sequence [duty "a" "work" 0, duty "b" "refuse" 1, duty "c" "work" 0]

/-- These tasks one after the other, and a fourth beside them. -/
def fork (lanes : Option UInt64) : Node :=
  .make "all" (.parallel ⟨lanes, false, true⟩) [duties, duty "d" "work" 0]

/-- Refuses one task and answers all others. -/
def refusing (call : Call) : Except String Json :=
  if call.task = "refuse" then .error "refused" else .ok (.str call.task)

/-- An engine that takes some time for each call. -/
def delayed (delay : Nat) :
    Engine := ⟨fun _ entry => ⟨delay, [], refusing entry.call, []⟩, .standard⟩

/-- The run of the tree by the clock. -/
def raced (lanes : Option UInt64) (delay : Nat) : RunState × Stage :=
  play (delayed delay) 8 [] (launch (delayed delay) (fork lanes) none outset)

/-- The fork is a patient tree. -/
theorem patient_fork (lanes : Option UInt64) : (fork lanes).Patient := by
  have plain : ∀ body, ¬Template.Holds (.obj []) body := by
    rintro body ⟨text, inside, -⟩
    cases inside with
    | member entry => cases entry
  have each (id name : String) (retries : UInt32) : (duty id name retries).Bides := ⟨rfl, plain⟩
  have nodes : (fork lanes).preorder = [fork lanes, duties, duty "a" "work" 0,
    duty "b" "refuse" 1, duty "c" "work" 0, duty "d" "work" 0] := rfl
  rw [Node.Patient, nodes]
  simp only [List.forall_mem_cons]
  exact ⟨⟨rfl, rfl⟩, trivial, each .., each .., each .., each .., List.forall_mem_nil _⟩

/-- Whatever the delay, tasks are answered alike. -/
theorem answers_delayed (delay : Nat) : (delayed delay).executor.Answers refusing := fun _ _ => rfl

theorem finishes_raced {lanes : Option UInt64} {delay : Nat}
    (live : (raced lanes delay).1.context.cancelled = false)
    (ended : ∃ outcome, (raced lanes delay).2 = .ended outcome) :
    ∃ outcome, Finishes (delayed delay) (fork lanes) outset.context (raced lanes delay).1 outcome := by
  obtain ⟨outcome, ended⟩ := ended
  refine ⟨outcome, live, outset.world, none, ?_⟩
  rw [← ended]
  exact leads_play 8 [] _

/-- The tasks are called in different orders, side by side and one after the other, and it makes no
difference. -/
theorem schedule_independent_fork :
    (delayed 5).executor.Answers refusing ∧ (delayed 0).executor.Answers refusing ∧
    (fork none).Patient ∧ (fork none).ids.Nodup ∧ (fork none).unlaned = (fork (some 1)).unlaned ∧
    outset.context.Tidy ∧
    (raced none 5).1.world.calls.map CallEntry.caller = ["a", "d", "b", "b"] ∧
    (raced (some 1) 0).1.world.calls.map CallEntry.caller = ["a", "b", "b", "d"] ∧
    Terminates (delayed 5) (fork none) outset.context ∧
    ∃ outcome, Finishes (delayed 5) (fork none) outset.context (raced none 5).1 outcome ∧
      Finishes (delayed 0) (fork (some 1)) outset.context (raced (some 1) 0).1 outcome ∧
      (raced none 5).1.context.results = (raced (some 1) 0).1.context.results ∧
      ((raced none 5).1.context.phase "b").retries =
        ((raced (some 1) 0).1.context.phase "b").retries := by
  have distinct : (fork none).ids.Nodup := by decide +kernel
  have same : (fork none).unlaned = (fork (some 1)).unlaned := rfl
  have tidy : outset.context.Tidy := ⟨.nil, .nil⟩
  obtain ⟨outcome, first⟩ : ∃ outcome, Finishes (delayed 5) (fork none) outset.context
      (raced none 5).1 outcome := finishes_raced (by decide +kernel) (by decide +kernel)
  obtain ⟨other, second⟩ : ∃ outcome, Finishes (delayed 0) (fork (some 1)) outset.context
      (raced (some 1) 0).1 outcome := finishes_raced (by decide +kernel) (by decide +kernel)
  obtain ⟨ends, -, agree⟩ := schedule_independent (answers_delayed 5) (answers_delayed 0)
    (patient_fork none) distinct same tidy
  obtain ⟨rfl, results, each⟩ := agree _ _ _ _ first second
  exact ⟨answers_delayed 5, answers_delayed 0, patient_fork none, distinct, same, tidy,
    by decide +kernel, by decide +kernel, ends, outcome, first, second, results, (each "b").2.2⟩

end Forecast

end Stepwise

import Stepwise.Proofs.Run.Act

/-!
# Calls of runs

A run makes all its calls in the name of its execution, behind the calls that were made before,
and none once it is cancelled, unless it is deaf to that. So the calls of several runs in one world
can be told apart. When answers in a run ask to cancel its own execution, it is cancelled at once.
The clock stands still while a run goes on.
-/

namespace Stepwise

namespace Context

@[simp] theorem executionId_rearm (context : Context) (node : Node) :
    (context.rearm node).executionId = context.executionId := by
  rw [rearm]
  generalize node.ids = ids
  induction ids generalizing context with
  | nil => rfl
  | cons first rest ih => exact ih _

end Context

namespace RunState

variable (s : RunState)

@[simp] theorem executionId_record (id : String) (outcome : Except Fault Json) :
    (s.record id outcome).context.executionId = s.context.executionId := by
  cases outcome with
  | ok value =>
    simp only [record]
    split <;> next heq =>
      have heq := congrArg Prod.snd heq
      subst heq
      rfl
  | error fault =>
    simp only [record]
    split
    · have same := s.context.executionId_cancelNode s.now id
      split <;> next heq =>
        rw [heq] at same
        exact same
    · split <;> next heq =>
        have heq := congrArg Prod.snd heq
        subst heq
        rfl

@[simp] theorem executionId_applyAll (effects : List Effect) :
    (s.applyAll effects).context.executionId = s.context.executionId := by
  induction effects generalizing s with
  | nil => rfl
  | cons effect rest ih => exact (ih _).trans (s.executionId_apply effect)

@[simp] theorem executionId_rearm (nodes : List Node) :
    (s.rearm nodes).context.executionId = s.context.executionId := by
  rw [rearm]
  generalize s.context = context
  induction nodes generalizing context with
  | nil => rfl
  | cons node rest ih => exact (ih _).trans (context.executionId_rearm node)

@[simp] theorem executionId_sweep (nodes : List Node) :
    (s.sweep nodes).context.executionId = s.context.executionId := by
  induction nodes generalizing s with
  | nil => rfl
  | cons node rest ih =>
    simp only [sweep]
    split
    · exact (ih _).trans (s.context.executionId_cancelAll s.now node.ids)
    · exact (ih _).trans (s.context.executionId_cancelAll s.now node.ids)

@[simp] theorem now_applyAll (effects : List Effect) : (s.applyAll effects).now = s.now := by
  induction effects generalizing s with
  | nil => rfl
  | cons effect rest ih => exact (ih _).trans (s.now_apply effect)

@[simp] theorem now_flush : s.flush.now = s.now := now_applyAll ..

@[simp] theorem now_record (id : String) (outcome : Except Fault Json) :
    (s.record id outcome).now = s.now := by
  obtain ⟨context, log, heq, -⟩ := s.record_eq id outcome
  rw [heq]
  rfl

@[simp] theorem now_sweep (nodes : List Node) : (s.sweep nodes).now = s.now := by
  obtain ⟨context, log, heq, -⟩ := s.sweep_eq nodes
  rw [heq]
  rfl

end RunState

variable {engine : Engine} {manner : Manner} {ids : List String} {s s' : RunState}

/-- No act takes time. -/
theorem Act.now (act : Act engine manner ids s s') : s'.now = s.now := by
  cases act with
  | call => exact RunState.now_applyAll ..
  | affect effects => exact s.now_applyAll effects
  | record => exact s.now_record _ _
  | sweep => exact s.now_sweep _
  | list | begin | callLater | stray | note | retry | wait | rearm => rfl

/-- Acts take no time. -/
theorem Acts.now (acts : Acts engine manner ids s s') : s'.now = s.now := by
  induction acts with
  | refl => rfl
  | tail _ act ih => exact act.now.trans ih

theorem Act.executionId (act : Act engine manner ids s s') :
    s'.context.executionId = s.context.executionId := by
  cases act with
  | call => exact RunState.executionId_applyAll ..
  | affect effects => exact s.executionId_applyAll effects
  | rearm => exact s.executionId_rearm _
  | record => exact s.executionId_record _ _
  | sweep => exact s.executionId_sweep _
  | list | begin | callLater | stray | note | retry | wait => rfl

/-- No act gives a run another id. -/
theorem Acts.executionId (acts : Acts engine manner ids s s') :
    s'.context.executionId = s.context.executionId := by
  induction acts with
  | refl => rfl
  | tail _ act ih => exact act.executionId.trans ih

/-- An act makes no call or one. Only a deaf run that is cancelled makes one. -/
theorem Act.calls (act : Act engine manner ids s s') :
    s'.world.calls = s.world.calls ∨ ∃ caller call,
      s'.world.calls = s.world.calls ++ [⟨caller, s.now, s.context, call⟩] ∧
      (manner ≠ .deaf → s.context.cancelled = false) := by
  cases act with
  | @call caller call live =>
    exact .inr ⟨caller, call, RunState.calls_applyAll .., fun _ => live⟩
  | @callLater caller call _ live => exact .inr ⟨caller, call, rfl, fun _ => live⟩
  | @stray caller call deaf => exact .inr ⟨caller, call, rfl, fun other => absurd deaf other⟩
  | affect effects => exact .inl (s.calls_applyAll effects)
  | record => exact .inl (s.calls_record _ _)
  | sweep => exact .inl (s.calls_sweep _)
  | list | begin | note | retry | wait | rearm => exact .inl rfl

/-- The calls of a run are made in the name of its execution, behind those made before. -/
theorem Acts.calls (acts : Acts engine manner ids s s') :
    ∃ made, s'.world.calls = s.world.calls ++ made ∧
      (∀ entry ∈ made, entry.context.executionId = s.context.executionId) ∧
      (manner ≠ .deaf → s.context.cancelled = true → made = []) := by
  induction acts with
  | refl => exact ⟨[], (List.append_nil _).symm, nofun, fun _ _ => rfl⟩
  | @tail middle last before act ih =>
    obtain ⟨made, calls, own, none⟩ := ih
    rcases act.calls with same | ⟨caller, call, new, live⟩
    · exact ⟨made, same.trans calls, own, none⟩
    · refine ⟨made ++ [⟨caller, middle.now, middle.context, call⟩], ?_, fun entry member => ?_,
        fun heeding dead => ?_⟩
      · rw [new, calls, List.append_assoc]
      · rcases List.mem_append.1 member with member | member
        · exact own entry member
        · cases List.mem_singleton.1 member
          exact Acts.executionId before
      · have still := Acts.cancelled before dead
        rw [live heeding] at still
        cases still

/-! ## Cancellations that answers ask for -/

/-- A run is cancelled if its own cancellation has been asked for. -/
def RunState.Granted (s : RunState) : Prop :=
  s.context.executionId ∈ s.world.requests → s.context.cancelled = true

/-- What a call asks to cancel is granted at once if it is the run itself. -/
theorem RunState.granted_applyAll (h : s.Granted) (effects : List Effect) :
    (s.applyAll effects).Granted := by
  induction effects generalizing s with
  | nil => exact h
  | cons effect rest ih =>
    refine ih ?_
    cases effect with
    | setVariable => exact h
    | cancelToken => exact fun _ => rfl
    | cancelExecution => exact fun _ => s.cancelled_cancelExecution
    | cancelWorkflow id =>
      intro asked
      simp only [apply] at asked ⊢
      split
      · exact RunState.cancelled_cancelExecution _
      · next other =>
        rw [if_neg other] at asked
        refine h ((List.mem_append.1 asked).resolve_right fun own => other ?_)
        exact (List.mem_singleton.1 own).symm

/-- Nothing in a run leaves a request for its own cancellation open. -/
theorem Act.granted (act : Act engine manner ids s s') (h : s.Granted) : s'.Granted := by
  have of_eq {s' : RunState} (requests : s'.world.requests = s.world.requests)
      (name : s'.context.executionId = s.context.executionId)
      (cancelled : s'.context.cancelled = s.context.cancelled) : s'.Granted := by
    rw [RunState.Granted, requests, name, cancelled]
    exact h
  cases act with
  | @call caller call =>
    have placed : (s.place engine caller call).2.Granted := h
    exact RunState.granted_applyAll placed _
  | affect effects => exact RunState.granted_applyAll h effects
  | rearm => exact of_eq rfl (s.executionId_rearm _) (s.cancelled_rearm _)
  | @record id outcome =>
    refine of_eq ?_ (s.executionId_record id outcome) (s.cancelled_record id outcome)
    obtain ⟨context, log, same, -⟩ := s.record_eq id outcome
    rw [same]
  | @sweep nodes =>
    refine of_eq ?_ (s.executionId_sweep nodes) (s.cancelled_sweep nodes)
    obtain ⟨context, log, same, -⟩ := s.sweep_eq nodes
    rw [same]
  | list | begin | callLater | stray | note | retry | wait => exact of_eq rfl rfl rfl

theorem Acts.granted (acts : Acts engine manner ids s s') (h : s.Granted) : s'.Granted := by
  induction acts with
  | refl => exact h
  | tail _ act ih => exact act.granted ih

end Stepwise

import Mathlib.Logic.Relation
import Stepwise.Proofs.Run.State

/-!
# Acts of runs

A run goes on by acts, each of which changes its state once: a node is listed, starts or ends, a
call is made, a call does what it does. `Act` says which acts there are and when a run may do
them: as long as it is not cancelled it starts nodes, makes calls and rearms bodies, and once it
is cancelled it only lists nodes and cancels what is running. Whatever all acts keep, a run keeps.
-/

namespace Stepwise

/-- What a part of a run has come to heeds the cancellation of the run: unless the run is
cancelled nothing ends with a cancellation, and if it is everything does. -/
def Heeds {α : Type} (cancelled : Bool) : Option (Except Fault α) → Prop
  | none => cancelled = false
  | some (.ok _) => cancelled = false
  | some (.error fault) => fault.isCancelled = cancelled

/-- What a call does at once as it is made. -/
def Reply.beginning (reply : Reply) : List Effect :=
  if reply.delay = 0 then reply.opening ++ reply.effects else reply.opening

/-- The manner in which a run acts. A prompt one does at once what its calls do as they begin, one
that heeds its cancellation may put that off, and a deaf one may besides not hear of the
cancellation. -/
inductive Manner where
  | prompt
  | heeding
  | deaf

/-- The acts of a run on nodes of some ids. -/
inductive Act (engine : Engine) (manner : Manner) (ids : List String) : RunState → RunState → Prop
  /-- A node that will not start is listed. -/
  | list {s : RunState} {id : String} (dead : s.context.cancelled = true) (member : id ∈ ids) :
      Act engine manner ids s (s.touch id)
  | begin {s : RunState} {node : Node} (live : s.context.cancelled = false)
      (member : node.id ∈ ids) : Act engine manner ids s (s.startNode node)
  /-- A call is made, which does at once what it does as it begins. -/
  | call {s : RunState} {caller : String} {call : Call} (live : s.context.cancelled = false) :
      Act engine manner ids s
        ((s.place engine caller call).2.applyAll (s.place engine caller call).1.beginning)
  /-- A call is made that will be answered later. -/
  | callLater {s : RunState} {caller : String} {call : Call} (slow : manner ≠ .prompt)
      (live : s.context.cancelled = false) : Act engine manner ids s (s.place engine caller call).2
  /-- A call is made when the run is cancelled. -/
  | stray {s : RunState} {caller : String} {call : Call} (unheard : manner = .deaf)
      (dead : s.context.cancelled = true) : Act engine manner ids s (s.place engine caller call).2
  /-- What calls do as they begin is put off, or is no longer. -/
  | note {s : RunState} (slow : manner ≠ .prompt) (openings : List Effect) :
      Act engine manner ids s { s with world := { s.world with openings := openings } }
  /-- A call does what it does, or somebody outside does. -/
  | affect {s : RunState} (effects : List Effect) : Act engine manner ids s (s.applyAll effects)
  | retry {s : RunState} {id : String} {attempt : Nat} {fault : Fault}
      (live : s.context.cancelled = false) : Act engine manner ids s (s.retry id attempt fault)
  | wait {s : RunState} : Act engine manner ids s s.takeTicket.2
  | rearm {s : RunState} {nodes : List Node} (live : s.context.cancelled = false)
      (members : Node.idsAll nodes ⊆ ids) : Act engine manner ids s (s.rearm nodes)
  | record {s : RunState} {id : String} {outcome : Except Fault Json}
      (heeds : Heeds s.context.cancelled (some outcome)) (member : id ∈ ids) :
      Act engine manner ids s (s.record id outcome)
  | sweep {s : RunState} {nodes : List Node} (members : Node.idsAll nodes ⊆ ids) :
      Act engine manner ids s (s.sweep nodes)

/-- One act after another. -/
abbrev Acts (engine : Engine) (manner : Manner) (ids : List String) : RunState → RunState → Prop :=
  Relation.ReflTransGen (Act engine manner ids)

namespace Act

variable {engine : Engine} {manner : Manner} {ids : List String} {s s' : RunState}

/-- An act within some nodes is one within more of them. -/
theorem mono (act : Act engine manner ids s s') {more : List String} (h : ids ⊆ more) :
    Act engine manner more s s' := by
  cases act with
  | list dead member => exact .list dead (h member)
  | begin live member => exact .begin live (h member)
  | call live => exact .call live
  | callLater slow live => exact .callLater slow live
  | stray unheard dead => exact .stray unheard dead
  | note slow openings => exact .note slow openings
  | affect effects => exact .affect effects
  | retry live => exact .retry live
  | wait => exact .wait
  | rearm live members => exact .rearm live (List.Subset.trans members h)
  | record heeds member => exact .record heeds (h member)
  | sweep members => exact .sweep (List.Subset.trans members h)

/-- What a run does in one manner it may do in another that allows as much. -/
theorem widen {other : Manner} (act : Act engine manner ids s s')
    (slow : manner ≠ .prompt → other ≠ .prompt) (unheard : manner = .deaf → other = .deaf) :
    Act engine other ids s s' := by
  cases act with
  | list dead member => exact .list dead member
  | begin live member => exact .begin live member
  | call live => exact .call live
  | callLater slowly live => exact .callLater (slow slowly) live
  | stray deaf dead => exact .stray (unheard deaf) dead
  | note slowly openings => exact .note (slow slowly) openings
  | affect effects => exact .affect effects
  | retry live => exact .retry live
  | wait => exact .wait
  | rearm live members => exact .rearm live members
  | record heeds member => exact .record heeds member
  | sweep members => exact .sweep members

/-- No act takes a cancellation back. -/
theorem cancelled (act : Act engine manner ids s s') (h : s.context.cancelled = true) :
    s'.context.cancelled = true := by
  cases act with
  | list => exact h
  | begin live => rw [h] at live; cases live
  | call live => rw [h] at live; cases live
  | callLater | stray | note => exact h
  | affect effects => rw [RunState.cancelled_applyAll, h, Bool.true_or]
  | retry => exact h
  | wait => exact h
  | rearm => rw [RunState.cancelled_rearm, h]
  | record => rw [RunState.cancelled_record, h]
  | sweep => rw [RunState.cancelled_sweep, h]

/-- No act gives a ticket back. -/
theorem tickets_le (act : Act engine manner ids s s') : s.world.tickets ≤ s'.world.tickets := by
  cases act with
  | wait => exact Nat.le_succ _
  | call =>
    rw [RunState.tickets_applyAll]
    exact Nat.le_refl _
  | affect => exact Nat.le_of_eq (RunState.tickets_applyAll ..).symm
  | record => exact Nat.le_of_eq (RunState.tickets_record ..).symm
  | sweep => exact Nat.le_of_eq (RunState.tickets_sweep ..).symm
  | list | begin | callLater | stray | note | retry | rearm => exact Nat.le_refl _

/-- What an answer does leaves every node alone. -/
theorem leftAlone_applyAll (s : RunState) (effects : List Effect) (id : String) :
    s.context.LeftAlone (s.applyAll effects).context id := by
  rcases s.phase_applyAll effects with same | ⟨cancelled, halted⟩
  · exact .of_phase (same id)
  · exact .of_halted (halted id) cancelled

/-- Acts leave nodes of other ids alone. -/
theorem leftAlone (act : Act engine manner ids s s') {id : String} (h : id ∉ ids) :
    s.context.LeftAlone s'.context id := by
  cases act with
  | list => exact .of_phase (s.phase_touch _ id)
  | @begin node live member =>
    refine .of_phase ((s.phase_startNode node id).trans (if_neg ?_))
    rintro rfl
    exact h member
  | call => exact leftAlone_applyAll _ _ id
  | callLater | stray | note => exact .of_phase rfl
  | affect effects => exact leftAlone_applyAll s effects id
  | @retry other attempt fault =>
    have phase := s.phase_retry other id attempt fault
    refine .inl ⟨?_, fun idle => phase.trans ?_⟩
    · rw [Context.state, phase]
      split
      · exact Phase.state_retry _
      · rfl
    · rw [Phase.retry_of_ne idle, ite_self]
  | wait => exact .of_phase rfl
  | rearm live members =>
    exact .of_phase ((s.phase_rearm _ id).trans (if_neg fun member => h (members member)))
  | @record other outcome heeds member =>
    refine .of_phase ((s.phase_record other id outcome).trans (if_neg ?_))
    rintro rfl
    exact h member
  | sweep members =>
    exact .of_phase ((s.phase_sweep _ id).trans (if_neg fun member => h (members member)))

end Act

namespace Acts

variable {engine : Engine} {manner : Manner} {ids : List String} {s s' : RunState}

theorem mono (acts : Acts engine manner ids s s') {more : List String} (h : ids ⊆ more) :
    Acts engine manner more s s' := by
  induction acts with
  | refl => exact .refl
  | tail _ act ih => exact ih.tail (act.mono h)

/-- Acts of one manner are acts of another that allows as much. -/
theorem widen {other : Manner} (acts : Acts engine manner ids s s')
    (slow : manner ≠ .prompt → other ≠ .prompt) (unheard : manner = .deaf → other = .deaf) :
    Acts engine other ids s s' := by
  induction acts with
  | refl => exact .refl
  | tail _ act ih => exact ih.tail (act.widen slow unheard)

/-- What a prompt run does any run may do. -/
theorem of_prompt (acts : Acts engine .prompt ids s s') : Acts engine manner ids s s' :=
  acts.widen (absurd rfl) nofun

/-- What a run does that heeds its cancellation any run may do that is not prompt. -/
theorem of_heeding (acts : Acts engine .heeding ids s s') (slow : manner ≠ .prompt) :
    Acts engine manner ids s s' := acts.widen (fun _ => slow) nofun

/-- A cancellation is never taken back. -/
theorem cancelled (acts : Acts engine manner ids s s') (h : s.context.cancelled = true) :
    s'.context.cancelled = true := by
  induction acts with
  | refl => exact h
  | tail _ act ih => exact act.cancelled ih

/-- What was put off is done. -/
theorem flush (slow : manner ≠ .prompt) (s : RunState) : Acts engine manner ids s s.flush :=
  .tail (.single (.note slow [])) (.affect s.world.openings)

/-- Tickets are given out and never taken back. -/
theorem tickets_le (acts : Acts engine manner ids s s') : s.world.tickets ≤ s'.world.tickets := by
  induction acts with
  | refl => exact Nat.le_refl _
  | tail _ act ih => exact Nat.le_trans ih act.tickets_le

/-- Acts within some nodes leave all others alone. -/
theorem leftAlone (acts : Acts engine manner ids s s') {id : String} (h : id ∉ ids) :
    s.context.LeftAlone s'.context id := by
  induction acts with
  | refl => exact .of_phase rfl
  | tail _ act ih => exact ih.trans (act.leftAlone h) act.cancelled

/-- A prompt run puts nothing off. -/
theorem openings (acts : Acts engine .prompt ids s s') :
    s'.world.openings = s.world.openings := by
  induction acts with
  | refl => rfl
  | tail _ act ih =>
    refine Eq.trans ?_ ih
    cases act with
    | call => exact RunState.openings_applyAll ..
    | affect => exact RunState.openings_applyAll ..
    | record => exact RunState.openings_record ..
    | sweep => exact RunState.openings_sweep ..
    | callLater slow | note slow => exact absurd rfl slow
    | list | begin | stray | retry | wait | rearm => rfl

end Acts

end Stepwise

import Mathlib.Algebra.GroupWithZero.Nat
import Stepwise.Proofs.Run.Allowance
import Stepwise.Proofs.Run.Calls
import Stepwise.Proofs.Run.Schedule

/-!
# What a run spends

Whatever a run does is paid for from the allowance of its tree: as the run goes on, what it has
spent and what it may still have to pay are never more than before (`Pays`, `pays_start`,
`pays_resume`), and when the wait of a ticket is over its price is paid besides. No act gives calls
back, so this holds whatever fails, comes late or is cancelled, and the allowance of the tree bounds
the calls in every state that a run reaches.
-/

namespace Stepwise

/-- What the calls of a run have cost so far. -/
def RunState.spent (tariff : Tariff) (s : RunState) : Nat :=
  (s.world.calls.map fun entry => tariff.call entry.caller).sum

namespace RunState

variable (s : RunState) (tariff : Tariff)

theorem spent_of_calls {s s' : RunState} (h : s'.world.calls = s.world.calls) :
    s'.spent tariff = s.spent tariff := by rw [spent, spent, h]

/-- A call is paid for when it is placed. -/
theorem spent_place (engine : Engine) (caller : String) (call : Call) :
    (s.place engine caller call).2.spent tariff = s.spent tariff + tariff.call caller := by
  simp [spent, place, List.map_append, List.sum_append]

/-- Where calls are free, nothing is spent. -/
theorem spent_of_free {tariff : Tariff} (free : ∀ caller, tariff.call caller = 0) :
    s.spent tariff = 0 := by simp [spent, free]

end RunState

namespace Run

/-- From one state to the next, some credit pays for the calls on the way, and something is left of
it. -/
def Pays (tariff : Tariff) (credit : Nat) (s s' : RunState) (left : Nat) : Prop :=
  s'.spent tariff + left ≤ s.spent tariff + credit

namespace Pays

variable {tariff : Tariff} {s s' s'' : RunState} {credit left rest more : Nat}

/-- Nothing costs nothing. -/
theorem refl (tariff : Tariff) (s : RunState) (credit : Nat) : Pays tariff credit s s credit :=
  Nat.le_refl _

/-- What makes no calls needs no credit, and what is left over may be lost. -/
theorem idle (same : s'.world.calls = s.world.calls) : Pays tariff credit s s' 0 := by
  rw [Pays, RunState.spent_of_calls tariff same]
  exact Nat.add_le_add_left (Nat.zero_le _) _

/-- What is left pays for what comes next. -/
theorem after (h : Pays tariff credit s s' left) (next : Pays tariff left s' s'' rest) :
    Pays tariff credit s s'' rest := by
  unfold Pays at *
  omega

/-- More than enough is enough. -/
theorem le (h : Pays tariff credit s s' left) (enough : credit ≤ more) :
    Pays tariff more s s' left := by
  unfold Pays at *
  omega

/-- Credit that is not touched is left. -/
theorem add (h : Pays tariff credit s s' left) (more : Nat) :
    Pays tariff (credit + more) s s' (left + more) := by
  unfold Pays at *
  omega

/-- What is left over may be lost. -/
theorem lose (h : Pays tariff credit s s' (left + more)) : Pays tariff credit s s' left := by
  unfold Pays at *
  omega

theorem of_calls (h : Pays tariff credit s s' left) (same : s''.world.calls = s'.world.calls) :
    Pays tariff credit s s'' left := by
  rw [Pays, RunState.spent_of_calls tariff same]
  exact h

/-- Where calls are free, the credit only gets less. -/
theorem le_of_free (h : Pays tariff credit s s' left) (free : ∀ caller, tariff.call caller = 0) :
    left ≤ credit := by
  rw [Pays, s.spent_of_free free, s'.spent_of_free free, Nat.zero_add, Nat.zero_add] at h
  exact h

end Pays

variable {engine : Engine} {tariff : Tariff} {s s₀ : RunState} {node : Node}

theorem pays_close (node : Node) (p : RunState × Progress) :
    Pays tariff (p.2.allowance engine tariff) p.1 (close node p).1
      ((close node p).2.allowance engine tariff) := by
  obtain ⟨s', progress⟩ := p
  cases progress with
  | waiting activity => exact .refl tariff s' _
  | ended outcome => exact .idle (s'.calls_record node.id outcome)

/-! ## Starting -/

/-- After an attempt a task pays for the pause, and has the attempts that are left. -/
theorem pays_settle {spec : TaskSpec} {call : Call} {left : Nat}
    {again : RunState → RunState × Progress}
    (next : ∀ s, Pays tariff (left * tariff.attempt node.id) s (again s).1
      ((again s).2.allowance engine tariff))
    (s : RunState) (outcome : Except Fault Json) :
    Pays tariff (left * tariff.attempt node.id + tariff.pause) s
      (settle engine node spec call left again s outcome).1
      ((settle engine node spec call left again s outcome).2.allowance engine tariff) := by
  unfold settle
  split
  · exact .idle rfl
  · cases outcome with
    | ok value => exact .idle rfl
    | error fault =>
      dsimp only
      split
      · exact .idle rfl
      · split
        · exact (next (s.retry node.id (attempts spec - left) fault)).le (Nat.le_add_right _ _)
        · -- The task pauses with the attempts that it had.
          exact .refl tariff s _

/-- The cost of an attempt is that of its call and of the waits that may come of it. -/
theorem pays_place (engine : Engine) (tariff : Tariff) (node : Node) (call : Call) (left : Nat)
    (s : RunState) : Pays tariff ((left + 1) * tariff.attempt node.id) s
      (s.place engine node.id call).2
      (left * tariff.attempt node.id + tariff.answer + tariff.pause) := by
  rw [Pays, RunState.spent_place, Nat.succ_mul]
  generalize left * tariff.attempt node.id = later
  rw [Tariff.attempt]
  omega

/-- However often it is called, a task pays for it from its attempts. -/
theorem pays_attempt (spec : TaskSpec) (call : Call) (left : Nat) : ∀ s : RunState,
    Pays tariff (left * tariff.attempt node.id) s (attempt engine node spec call left s).1
      ((attempt engine node spec call left s).2.allowance engine tariff) := by
  induction left with
  | zero => exact fun s => .idle rfl
  | succ left ih =>
    intro s
    have placed := pays_place engine tariff node call left s
    -- An attempt that is over at once has no wait for an answer.
    have answered (effects : List Effect) (outcome : Except Fault Json) :
        Pays tariff ((left + 1) * tariff.attempt node.id) s
          (settle engine node spec call left (attempt engine node spec call left)
            ((s.place engine node.id call).2.applyAll effects) outcome).1
          ((settle engine node spec call left (attempt engine node spec call left)
            ((s.place engine node.id call).2.applyAll effects) outcome).2.allowance
              engine tariff) := by
      refine (placed.of_calls (RunState.calls_applyAll ..)).after ((pays_settle ih _ _).le ?_)
      exact Nat.add_le_add_right (Nat.le_add_right _ _) _
    simp only [attempt]
    split
    · exact answered _ _
    · split
      · exact answered _ _
      · exact placed

/-- A look at a condition costs nothing. -/
theorem pays_poll (spec : WaitSpec) (deadline : Option Nat) (s : RunState) (credit : Nat) :
    Pays tariff credit s (poll engine node spec deadline s).1
      ((poll engine node spec deadline s).2.allowance engine tariff) := by
  unfold poll
  split
  · exact .idle rfl
  · split
    · exact .idle rfl
    · dsimp only
      split <;> exact .idle rfl

theorem pays_asSequence (node : Node) (p : RunState × Course) :
    Pays tariff (p.2.allowance engine tariff) p.1 (asSequence node p).1
      ((asSequence node p).2.allowance engine tariff) := by
  obtain ⟨s', course⟩ := p
  cases course <;> exact .refl tariff s' _

theorem pays_asBranch (node : Node) (p : RunState × Progress) :
    Pays tariff (p.2.allowance engine tariff) p.1 (asBranch node p).1
      ((asBranch node p).2.allowance engine tariff) := by
  obtain ⟨s', progress⟩ := p
  cases progress <;> exact .refl tariff s' _

section

variable {nodes : List Node}

/-- Each of some steps in turn pays from its own allowance. -/
theorem pays_startAll (each : ∀ node ∈ nodes, ∀ s, Pays tariff (node.allowance engine tariff) s
      (start engine s node).1 ((start engine s node).2.allowance engine tariff))
    (done : List Json) : ∀ s : RunState,
      Pays tariff (Node.allowanceAll engine tariff nodes) s (startAll engine done s nodes).1
        ((startAll engine done s nodes).2.allowance engine tariff) := by
  induction nodes generalizing done with
  | nil =>
    intro s
    rw [startAll]
    exact .idle rfl
  | cons node rest ih =>
    intro s
    have first := (each node List.mem_cons_self s).add (Node.allowanceAll engine tariff rest)
    have ih := ih fun n member => each n (List.mem_cons_of_mem _ member)
    rw [startAll, Node.allowanceAll]
    generalize start engine s node = p at first
    obtain ⟨s', progress⟩ := p
    cases progress with
    | waiting current => exact first
    | ended outcome =>
      cases outcome with
      | error fault => exact first.after (.idle rfl)
      | ok value =>
        rw [Progress.allowance, Nat.zero_add] at first
        exact first.after (ih (done ++ [value]) s')

theorem pays_startBranch (each : ∀ node ∈ nodes, ∀ s, Pays tariff (node.allowance engine tariff) s
      (start engine s node).1 ((start engine s node).2.allowance engine tariff)) (side : Branch)
    (s : RunState) :
    Pays tariff (Node.allowanceAll engine tariff nodes) s (startBranch engine side s nodes).1
      ((startBranch engine side s nodes).2.allowance engine tariff) := by
  induction nodes with
  | nil =>
    rw [startBranch]
    exact .idle rfl
  | cons node rest ih =>
    rw [startBranch, Node.allowanceAll]
    split
    · exact (each node List.mem_cons_self s).le (Nat.le_add_right _ _)
    · exact (ih fun n member => each n (List.mem_cons_of_mem _ member)).le (Nat.le_add_left _ _)

end

/-- Each round of a loop pays from the allowance of its body. -/
theorem pays_rounds {spec : LoopSpec} {body : RunState → RunState × Course}
    (round : ∀ s, Pays tariff (Node.allowanceAll engine tariff node.children) s (body s).1
      ((body s).2.allowance engine tariff)) (remaining : Nat) :
    ∀ (first : Bool) (finished : List Json) (s : RunState),
      Pays tariff (remaining * Node.allowanceAll engine tariff node.children) s
        (rounds node spec body remaining first finished s).1
        ((rounds node spec body remaining first finished s).2.allowance engine tariff) := by
  induction remaining with
  | zero => exact fun _ _ s => .idle rfl
  | succ remaining ih =>
    intro first finished s
    rw [rounds]
    split
    · exact .idle rfl
    · split
      · exact .idle rfl
      · have ready : Pays tariff (Node.allowanceAll engine tariff node.children) s
            (if first then s else s.rearm node.children)
            (Node.allowanceAll engine tariff node.children) := by
          cases first <;> exact .refl tariff s _
        have done := (ready.after (round _)).add
          (remaining * Node.allowanceAll engine tariff node.children)
        rw [Nat.succ_mul, Nat.add_comm]
        generalize body (if first then s else s.rearm node.children) = p at done
        obtain ⟨s', course⟩ := p
        cases course with
        | waiting done' current rest => exact done
        | ended outcome =>
          rw [Course.allowance, Nat.zero_add] at done
          dsimp only
          split
          · exact done.after (.idle rfl)
          · exact done.after (ih false _ s')

/-- What is left of the allowances of a block, with those of the children in its queue and the price
of their turns. -/
abbrev laneAllowance (engine : Engine) (tariff : Tariff) (lanes : List (Lane Activity))
    (queue : List Node) : Nat :=
  Activity.allowanceOfLanes engine tariff lanes + Node.allowanceAll engine tariff queue +
    queue.length * tariff.turn

section

variable {block : Node} {spec : ParallelSpec} {limit : Nat}

/-- The turn of the next child is paid for by the block. -/
theorem pays_carryOn (lanes : List (Lane Activity)) (queue : List Node) (firstError : Option Fault)
    (s : RunState) : Pays tariff (laneAllowance engine tariff lanes queue) s
      (carryOn block spec limit lanes firstError s queue).1
      ((carryOn block spec limit lanes firstError s queue).2.allowance engine tariff) := by
  cases queue with
  | nil =>
    rw [carryOn]
    split
    · exact .refl tariff s _
    · exact .idle rfl
  | cons child rest =>
    rw [carryOn]
    split
    · exact .refl tariff s _
    · exact .refl tariff s _

/-- A child that has ended has nothing left. -/
theorem pays_afterChild (before after : List (Lane Activity)) (queue : List Node)
    (firstError : Option Fault) (child : Node) (outcome : Except Fault Json) (s : RunState) :
    Pays tariff (laneAllowance engine tariff (before ++ after) queue) s
      (afterChild block spec limit queue firstError s before child outcome after).1
      ((afterChild block spec limit queue firstError s before child outcome after).2.allowance
        engine tariff) := by
  unfold afterChild
  generalize judge spec firstError child outcome = verdict
  cases verdict with
  | goOn slot firstError =>
    have same : laneAllowance engine tariff (before ++ after) queue =
        laneAllowance engine tariff (before ++ [.ended child slot] ++ after) queue := by
      simp only [laneAllowance, Activity.allowanceOfLanes_append, Activity.allowanceOfLanes,
        Activity.allowanceOfLane, Nat.add_zero]
    rw [same]
    exact pays_carryOn _ queue firstError s
  | stop outcome => exact .idle (s.calls_sweep _)

end

/-- The work of a node is paid for by its allowance. -/
theorem pays_work (each : ∀ child ∈ node.children, ∀ s,
      Pays tariff (child.allowance engine tariff) s (start engine s child).1
        ((start engine s child).2.allowance engine tariff)) (s : RunState) :
    Pays tariff (node.allowance engine tariff) s (work engine node s).1
      ((work engine node s).2.allowance engine tariff) := by
  have once (h : node.rounds? engine = none) : node.dues tariff +
      Node.allowanceAll engine tariff node.children ≤ node.allowance engine tariff :=
    Nat.le_of_eq (by rw [Node.allowance_eq, Node.turns, h, Option.getD_none, Nat.one_mul])
  have below (h : node.rounds? engine = none) :
      Node.allowanceAll engine tariff node.children ≤ node.allowance engine tariff :=
    Nat.le_trans (Nat.le_add_left _ _) (once h)
  unfold work
  split
  · next spec kind =>
    refine (pays_attempt spec _ _ s).le ?_
    rw [Node.allowance_eq, Node.dues, kind]
    exact Nat.le_add_right _ _
  · next kind =>
    exact ((pays_startAll each [] s).after (pays_asSequence node _)).le
      (below (by rw [Node.rounds?, kind]))
  · next spec kind =>
    refine (pays_carryOn [] node.children none s).le ?_
    have within := once (by rw [Node.rounds?, kind])
    rw [Node.dues, kind] at within
    rw [laneAllowance, Activity.allowanceOfLanes, Nat.zero_add, Nat.add_comm]
    exact within
  · next text kind =>
    exact ((pays_startBranch each _ s).after (pays_asBranch node _)).le
      (below (by rw [Node.rounds?, kind]))
  · next spec kind =>
    refine (pays_rounds (pays_startAll each []) _ true [] s).le ?_
    rw [Node.allowance_eq, Node.turns, Node.rounds?, kind, Option.getD_some]
    exact Nat.le_add_left _ _
  · exact pays_poll _ _ s _

/-- The allowance of a node pays for all that happens when it starts. -/
theorem pays_start (engine : Engine) (tariff : Tariff) (node : Node) (s : RunState) :
    Pays tariff (node.allowance engine tariff) s (start engine s node).1
      ((start engine s node).2.allowance engine tariff) := by
  induction node using Node.induction generalizing s with
  | step node ih =>
    rw [start_eq]
    split
    · exact .idle rfl
    · have begun : Pays tariff (node.allowance engine tariff) s (s.startNode node)
          (node.allowance engine tariff) := .refl tariff s _
      exact (begun.after (pays_work ih _)).after (pays_close node _)

/-! ## Going on -/

/-- Steps in turn go on with the allowances of those to come. -/
theorem pays_andThen (done : List Json) (rest : List Node) (p : RunState × Progress) :
    Pays tariff (p.2.allowance engine tariff + Node.allowanceAll engine tariff rest) p.1
      (andThen engine done rest p).1 ((andThen engine done rest p).2.allowance engine tariff) := by
  obtain ⟨s', progress⟩ := p
  cases progress with
  | waiting current => exact .refl tariff s' _
  | ended outcome =>
    cases outcome with
    | error fault => exact .idle rfl
    | ok value =>
      rw [Progress.allowance, Nat.zero_add]
      exact pays_startAll (fun n _ => pays_start engine tariff n) _ s'

/-- A loop goes on with the allowances of the rounds to come. -/
theorem pays_goOnLoop (node : Node) (spec : LoopSpec) (remaining : Nat) (finished : List Json)
    (p : RunState × Course) :
    Pays tariff (p.2.allowance engine tariff +
        remaining * Node.allowanceAll engine tariff node.children) p.1
      (goOnLoop engine node spec remaining finished p).1
      ((goOnLoop engine node spec remaining finished p).2.allowance engine tariff) := by
  obtain ⟨s', course⟩ := p
  cases course with
  | waiting done current rest => exact .refl tariff s' _
  | ended outcome =>
    rw [Course.allowance, Nat.zero_add]
    simp only [goOnLoop]
    split
    · exact .idle rfl
    · exact pays_rounds (pays_startAll (fun n _ => pays_start engine tariff n) []) _ _ _ s'

/-- A block goes on with the allowances of its other lanes and of its queue. -/
theorem pays_goOnLanes (node : Node) (spec : ParallelSpec) (limit : Nat) (queue : List Node)
    (door : Option Nat) (firstError : Option Fault) (before after : List (Lane Activity))
    (child : Node) (p : RunState × Progress) :
    Pays tariff (p.2.allowance engine tariff + laneAllowance engine tariff (before ++ after) queue)
      p.1 (goOnLanes node spec limit queue door firstError (laneChange before child after p)).1
      ((goOnLanes node spec limit queue door firstError
        (laneChange before child after p)).2.allowance engine tariff) := by
  obtain ⟨s', progress⟩ := p
  cases progress with
  | waiting current =>
    have same : (Progress.waiting current).allowance engine tariff +
        laneAllowance engine tariff (before ++ after) queue =
          laneAllowance engine tariff (before ++ .running child current :: after) queue := by
      simp only [laneAllowance, Activity.allowanceOfLanes_append, Activity.allowanceOfLanes,
        Activity.allowanceOfLane, Progress.allowance]
      omega
    rw [same]
    exact .refl tariff s' _
  | ended outcome =>
    rw [Progress.allowance, Nat.zero_add]
    exact pays_afterChild before after queue firstError child outcome s'

/-- A child that starts in a block has its turn. -/
theorem pays_enter (block : Node) (spec : ParallelSpec) (limit : Nat) (lanes : List (Lane Activity))
    (child : Node) (rest : List Node) (firstError : Option Fault) (s : RunState) :
    Pays tariff (laneAllowance engine tariff lanes (child :: rest)) s
      (enter engine block spec limit lanes firstError s (child :: rest)).1
      ((enter engine block spec limit lanes firstError s (child :: rest)).2.allowance
        engine tariff + tariff.turn) := by
  have parts : laneAllowance engine tariff lanes (child :: rest) =
      child.allowance engine tariff + (laneAllowance engine tariff lanes rest + tariff.turn) := by
    rw [laneAllowance, laneAllowance, Node.allowanceAll, List.length_cons, Nat.succ_mul]
    omega
  have first := (pays_start engine tariff child s).add
    (laneAllowance engine tariff lanes rest + tariff.turn)
  rw [enter, parts]
  generalize start engine s child = p at first
  obtain ⟨s', progress⟩ := p
  cases progress with
  | waiting activity =>
    -- The child stands in the last lane now, with what it has left.
    have moved : activity.allowance engine tariff +
        (laneAllowance engine tariff lanes rest + tariff.turn) =
          laneAllowance engine tariff (lanes ++ [.running child activity]) rest + tariff.turn := by
      simp only [laneAllowance, Activity.allowanceOfLanes_append, Activity.allowanceOfLanes,
        Activity.allowanceOfLane]
      omega
    rw [Progress.allowance, moved] at first
    exact first.after ((pays_carryOn _ rest firstError s').add tariff.turn)
  | ended outcome =>
    have judged : Pays tariff (laneAllowance engine tariff (lanes ++ []) rest) s'
        (afterChild block spec limit rest firstError s' lanes child outcome []).1
        ((afterChild block spec limit rest firstError s' lanes child outcome []).2.allowance
          engine tariff) := pays_afterChild ..
    rw [List.append_nil] at judged
    rw [Progress.allowance, Nat.zero_add] at first
    exact first.after (judged.add tariff.turn)

/-- What it costs that the own wait of an activity is over. The looks of a wait are free. -/
def price (tariff : Tariff) : Activity → Nat
  | .calling .. => tariff.answer
  | .pausing .. => tariff.pause
  | .parallel .. => tariff.turn
  | .polling .. | .sequence .. | .branch .. | .loop .. => 0

section

variable {bell : Bell} {part activity : Activity}

/-- What an activity has left pays for the end of its own wait and for all that happens then. -/
theorem pays_own (holds : part.Holds bell.ticket) (s : RunState) :
    Pays tariff (part.allowance engine tariff) s (resume engine bell s part).1
      ((resume engine bell s part).2.allowance engine tariff + price tariff part) := by
  -- The price is put aside before anything else happens.
  have aside (credit : Nat) {q : RunState × Progress}
      (h : Pays tariff credit s q.1 (q.2.allowance engine tariff)) (node : Node)
      (enough : credit + price tariff part ≤ part.allowance engine tariff) :
      Pays tariff (part.allowance engine tariff) s (close node q).1
        ((close node q).2.allowance engine tariff + price tariff part) :=
    ((h.after (pays_close node q)).add _).le enough
  cases holds with
  | @calling node spec call left reply due limit =>
    rw [resume, if_pos rfl]
    refine aside (left * tariff.attempt node.id + tariff.pause) ?_ node ?_
    · unfold answered
      dsimp only
      split
      · exact pays_settle (pays_attempt spec call left) s _
      · have effected : Pays tariff (left * tariff.attempt node.id + tariff.pause) s
            (s.applyAll reply.effects) (left * tariff.attempt node.id + tariff.pause) :=
          (Pays.refl tariff s _).of_calls (s.calls_applyAll _)
        exact effected.after (pays_settle (pays_attempt spec call left) _ _)
    · rw [Activity.allowance, price]
      omega
  | @pausing node spec call left due =>
    rw [resume, if_pos rfl]
    refine aside ((left + 1) * tariff.attempt node.id) ?_ node (Nat.le_refl _)
    unfold rested
    split
    · exact .idle rfl
    · exact pays_attempt spec call (left + 1) s
  | @polling node spec deadline due =>
    rw [resume, if_pos rfl]
    exact aside 0 (pays_poll spec deadline s 0) node (Nat.zero_le _)
  | @turn node spec lanes child rest firstError =>
    rw [resume, if_pos rfl]
    exact (pays_enter node spec _ lanes child rest firstError s).after
      ((pays_close node _).add tariff.turn)

/-- If a part pays its way as it goes on, so does what is around it. -/
theorem pays_around (inside : part.Inside activity) (held : bell.ticket ∈ part.tickets)
    (own : activity.tickets.Nodup) {price : Nat} (here : Pays tariff (part.allowance engine tariff) s
      (resume engine bell s part).1 ((resume engine bell s part).2.allowance engine tariff + price)) :
    Pays tariff (activity.allowance engine tariff) s (resume engine bell s activity).1
      ((resume engine bell s activity).2.allowance engine tariff + price) := by
  induction inside with
  | self => exact here
  | @sequence node done current rest inner ih =>
    have inner := (ih own).add (Node.allowanceAll engine tariff rest)
    rw [Nat.add_right_comm _ price] at inner
    rw [resume]
    exact ((inner.after ((pays_andThen done rest _).add price)).after
      ((pays_asSequence node _).add price)).after ((pays_close node _).add price)
  | @branch node current inner ih =>
    rw [resume]
    exact ((ih own).after ((pays_asBranch node _).add price)).after ((pays_close node _).add price)
  | @loop node spec remaining finished done current rest inner ih =>
    have inner := (ih own).add (Node.allowanceAll engine tariff rest)
    rw [Nat.add_right_comm _ price] at inner
    have walked := (inner.after ((pays_andThen done rest _).add price)).add
      (remaining * Node.allowanceAll engine tariff node.children)
    rw [Nat.add_right_comm _ price] at walked
    rw [resume]
    exact (walked.after ((pays_goOnLoop node spec remaining finished _).add price)).after
      ((pays_close node _).add price)
  | @parallel node spec lanes queue door firstError child activity lane inner ih =>
    obtain ⟨distinct, apart⟩ := Activity.nodup_parallel own
    have inLane := inner.tickets_subset held
    have closed := apart bell.ticket (List.mem_flatMap.2 ⟨_, lane, inLane⟩)
    have below := ih (nodup_of_lane distinct lane)
    obtain ⟨before, after, rfl, hbefore, hafter⟩ := split_of_lane distinct lane inLane
    have inner := below.add (laneAllowance engine tariff (before ++ after) queue)
    rw [Nat.add_right_comm _ price] at inner
    have same : (Activity.parallel node spec (before ++ .running child activity :: after) queue door
        firstError).allowance engine tariff = activity.allowance engine tariff +
          laneAllowance engine tariff (before ++ after) queue := by
      simp only [Activity.allowance, laneAllowance, Activity.allowanceOfLanes_append,
        Activity.allowanceOfLanes, Activity.allowanceOfLane]
      omega
    rw [resume_lane closed hbefore hafter, same]
    exact (inner.after ((pays_goOnLanes node spec _ queue door firstError before after child _).add
      price)).after ((pays_close node _).add price)

/-- What is left of the allowance of an activity pays for all that happens as it goes on. -/
theorem pays_resume (engine : Engine) (tariff : Tariff) (bell : Bell) {context : Context}
    {live : NodeState} (fits : context.Fits live node activity) (own : activity.tickets.Nodup)
    (s : RunState) :
    Pays tariff (activity.allowance engine tariff) s (resume engine bell s activity).1
      ((resume engine bell s activity).2.allowance engine tariff) := by
  by_cases held : bell.ticket ∈ activity.tickets
  · obtain ⟨part, inside, holds⟩ := fits.exists_holds held
    exact (pays_around inside holds.held own (pays_own holds s)).lose
  · rw [resume_of_notMem held]
    exact .refl tariff s _

end

/-! ## Runs -/

/-- What may still have to be paid in a run. -/
def Stage.allowance (engine : Engine) (tariff : Tariff) : Stage → Nat
  | .active activity _ => activity.allowance engine tariff
  | .ended _ => 0

variable {root : Node} {limit : Option Duration} {stage : Stage}

/-- At the end of a step nothing is spent. -/
theorem pays_ofProgress (limit : Option TimeLimit) (p : RunState × Progress) :
    Pays tariff (p.2.allowance engine tariff) p.1 (ofProgress limit p).1
      ((ofProgress limit p).2.allowance engine tariff) := by
  obtain ⟨s', progress⟩ := p
  cases progress with
  | waiting activity => exact (Pays.refl tariff s' _).of_calls s'.calls_flush
  | ended outcome => exact .idle rfl

/-- A run is launched with the allowance of its tree. -/
theorem pays_launch (engine : Engine) (tariff : Tariff) (root : Node) (limit : Option Duration)
    (s : RunState) : Pays tariff (root.allowance engine tariff) s (launch engine root limit s).1
      ((launch engine root limit s).2.allowance engine tariff) :=
  (pays_start engine tariff root s).after (pays_ofProgress _ _)

/-- No step of a run spends more than its stage has. -/
theorem pays_step (sound : Sound root s stage) (stimulus : Stimulus) :
    Pays tariff (stage.allowance engine tariff) s (step engine s stage stimulus).1
      ((step engine s stage stimulus).2.allowance engine tariff) := by
  cases sound with
  | ended => exact .idle rfl
  | @active activity limit live fits alive own given =>
    cases stimulus with
    | wake bell => exact (pays_resume engine tariff bell fits own s).after (pays_ofProgress _ _)
    | heed =>
      simp only [step, heed]
      split
      · exact (pays_resume engine tariff _ fits own s).after (pays_ofProgress _ _)
      · exact .refl tariff s _
    | expire =>
      cases limit with
      | none => exact .refl tariff s _
      | some limit => exact .idle rfl
    | act effects => exact (Pays.refl tariff s _).of_calls (s.calls_applyAll effects)

/-- The allowance of a tree pays for all calls in its run, however far it comes. -/
theorem Reaches.pays {p : RunState × Stage} (h : Reaches engine root limit s₀ p)
    (untouched : s₀.context.Untouched root) (distinct : root.ids.Nodup) (tariff : Tariff) :
    Pays tariff (root.allowance engine tariff) s₀ p.1 (p.2.allowance engine tariff) := by
  induction h with
  | refl => exact pays_launch engine tariff root limit s₀
  | tail reached move ih =>
    have sound := Reaches.sound reached untouched distinct
    cases move with
    | step s stage time stimulus => exact ih.after (pays_step (sound.later time) stimulus)

/-- A run makes its calls behind those that were made before. -/
theorem Reaches.calls_extend {p : RunState × Stage} (h : Reaches engine root limit s₀ p)
    (untouched : s₀.context.Untouched root) (distinct : root.ids.Nodup) :
    s₀.world.calls <+: p.1.world.calls := by
  refine h.invariant (fun s => s₀.world.calls <+: s.world.calls) untouched distinct
    (List.prefix_refl _) (fun s time calls => calls) fun s s' act calls => ?_
  rcases act.calls with same | ⟨caller, call, new, -⟩
  · rw [same]
    exact calls
  · rw [new]
    exact calls.trans (List.prefix_append _ _)

/-- If the calls of one task cost something, what is spent on calls is their number. -/
theorem sum_ofCalls (id : String) (made : List CallEntry) :
    (made.map fun entry => (Tariff.ofCalls id).call entry.caller).sum =
      made.countP (fun entry => entry.caller = id) := by
  induction made with
  | nil => rfl
  | cons entry rest ih =>
    rw [List.map_cons, List.sum_cons, ih, List.countP_cons, Nat.add_comm]
    simp [Tariff.ofCalls]

/-- In a run of a tree with distinct ids a task makes no more calls than its attempts as often as
the loops around it have rounds. -/
theorem calls_le_of_reaches {p : RunState × Stage} {task : Node} {spec : TaskSpec}
    (h : Reaches engine root limit s₀ p) (untouched : s₀.context.Untouched root)
    (distinct : root.ids.Nodup) (member : task ∈ root.preorder) (kind : task.kind = .task spec) :
    ∃ made, p.1.world.calls = s₀.world.calls ++ made ∧
      made.countP (fun entry => entry.caller = task.id) ≤
        min (spec.retries.toNat + 1) (UInt32.size - 1) *
          ((root.above task.id).filterMap (Node.rounds? engine)).prod := by
  have paid := h.pays untouched distinct (.ofCalls task.id)
  obtain ⟨made, calls⟩ := h.calls_extend untouched distinct
  refine ⟨made, calls.symm, ?_⟩
  have counted : p.1.spent (.ofCalls task.id) =
      s₀.spent (.ofCalls task.id) + made.countP (fun entry => entry.caller = task.id) := by
    rw [RunState.spent, RunState.spent, ← calls, List.map_append, List.sum_append, sum_ofCalls task.id made]
  rw [Pays, Node.allowance_eq_prod engine distinct member kind] at paid
  exact Nat.le_of_add_le_add_left (counted ▸ Nat.le_trans (Nat.le_add_right _ _) paid)

/-! ## Loops in loops -/

/-- A task of two attempts. -/
def stubborn : Node := .make "stubborn" (.task ⟨"work", [], [], 1, none, none⟩) []

/-- A loop of two rounds beside a task, in a block that is run three times. -/
def nest : Node :=
  let again (id : String) (rounds : UInt64) (body : Node) : Node :=
    .make id (.loop ⟨"true", some rounds, false⟩) [body]
  let once : Node := .make "once" (.task ⟨"work", [], [], 0, none, none⟩) []
  again "outer" 3 (.make "both" (.parallel .standard) [once, again "inner" 2 stubborn])

/-- The nest when the first answer has come. -/
def nested : RunState × Stage :=
  step slow (later (launch slow nest none outset).1 5) (launch slow nest none outset).2
    (.wake ⟨0, false⟩)

/-- Three rounds of two rounds of two attempts are the most that the nested loops allow. -/
theorem calls_le_nested : nest.ids.Nodup ∧ ∃ made, nested.1.world.calls = made ∧
    made.countP (fun entry => entry.caller = stubborn.id) ≤ 2 * (3 * 2) := by
  have inside : stubborn ∈ nest.preorder := by
    simp [nest, stubborn, Node.make, Node.preorder, Node.preorderAll]
  have reached : Reaches slow nest none outset nested := .single (.any slow _ _ 5 (.wake ⟨0, false⟩))
  have untouched : outset.context.Untouched nest := fun _ _ => rfl
  have distinct : nest.ids.Nodup := by decide
  exact ⟨distinct, calls_le_of_reaches reached untouched distinct inside rfl⟩

end Run

end Stepwise

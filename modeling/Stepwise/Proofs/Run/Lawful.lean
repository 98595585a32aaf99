import Stepwise.Proofs.Run.Change
import Stepwise.Proofs.Run.Undisturbed

/-!
# Starting by the rules

A node that starts does so by changes, each with what it needs: the nodes below it start when they
are pending and it runs, retries are counted one by one, and it ends when nothing below it runs
(`lawful_start`). What carries the count from one attempt of a task to the next is that a task that
waits has been tried as often as its activity says (`Activity.Tried`).
-/

namespace Stepwise

open Run (attempts)

/-- Every task that waits in an activity runs, with as many retries as its attempts were. -/
inductive Activity.Tried (context : Context) (ids : List String) : Activity → Prop
  | calling {node : Node} {spec : TaskSpec} {call : Call} {left : Nat} {reply : Reply}
      {ticket due : Nat} {limit : Option Nat} {since : Nat} (member : node.id ∈ ids)
      (more : left < attempts spec)
      (phase : context.phase node.id = .running since (attempts spec - (left + 1))) :
      Tried context ids (.calling node spec call left reply ticket due limit)
  | pausing {node : Node} {spec : TaskSpec} {call : Call} {left ticket due : Nat} {since : Nat}
      (member : node.id ∈ ids) (more : left ≤ attempts spec)
      (phase : context.phase node.id = .running since (attempts spec - left)) :
      Tried context ids (.pausing node spec call left ticket due)
  | polling {node : Node} {spec : WaitSpec} {deadline : Option Nat} {ticket due : Nat} :
      Tried context ids (.polling node spec deadline ticket due)
  | sequence {node : Node} {done : List Json} {current : Activity} {rest : List Node}
      (inner : Tried context ids current) : Tried context ids (.sequence node done current rest)
  | branch {node : Node} {current : Activity} (inner : Tried context ids current) :
      Tried context ids (.branch node current)
  | loop {node : Node} {spec : LoopSpec} {remaining : Nat} {finished done : List Json}
      {current : Activity} {rest : List Node} (inner : Tried context ids current) :
      Tried context ids (.loop node spec remaining finished done current rest)
  | parallel {node : Node} {spec : ParallelSpec} {lanes : List (Lane Activity)} {queue : List Node}
      {door : Option Nat} {firstError : Option Fault}
      (inner : ∀ child activity, .running child activity ∈ lanes → Tried context ids activity) :
      Tried context ids (.parallel node spec lanes queue door firstError)

namespace Activity.Tried

variable {context later : Context} {ids more : List String} {activity : Activity}

/-- What has been tried within some nodes has been tried within more. -/
theorem mono (h : activity.Tried context ids) (subset : ids ⊆ more) :
    activity.Tried context more := by
  induction h with
  | calling member enough phase => exact .calling (subset member) enough phase
  | pausing member enough phase => exact .pausing (subset member) enough phase
  | polling => exact .polling
  | sequence _ ih => exact .sequence ih
  | branch _ ih => exact .branch ih
  | loop _ ih => exact .loop ih
  | parallel _ ih => exact .parallel ih

/-- What has been tried stays so if nothing is done to its nodes. -/
theorem keep (h : activity.Tried context ids)
    (same : ∀ id ∈ ids, later.phase id = context.phase id) : activity.Tried later ids := by
  induction h with
  | calling member enough phase => exact .calling member enough ((same _ member).trans phase)
  | pausing member enough phase => exact .pausing member enough ((same _ member).trans phase)
  | polling => exact .polling
  | sequence _ ih => exact .sequence ih
  | branch _ ih => exact .branch ih
  | loop _ ih => exact .loop ih
  | parallel _ ih => exact .parallel ih

/-- The tasks that wait in an activity are in the tree of its node. -/
theorem within (h : activity.Tried context ids) {live : NodeState} {node : Node}
    (fits : context.Fits live node activity) : activity.Tried context node.ids := by
  induction fits with
  | @calling node =>
    cases h with
    | calling _ enough phase => exact .calling node.mem_ids_self enough phase
  | @pausing node =>
    cases h with
    | pausing _ enough phase => exact .pausing node.mem_ids_self enough phase
  | polling => exact .polling
  | sequence _ _ children _ _ _ ih =>
    cases h with
    | sequence inner =>
      exact .sequence ((ih inner).mono (Node.ids_child_subset (by simp [children])))
  | branch _ _ children _ _ ih =>
    cases h with
    | branch inner => exact .branch ((ih inner).mono (Node.ids_child_subset (by simp [children])))
  | loop _ _ children _ _ _ ih =>
    cases h with
    | loop inner => exact .loop ((ih inner).mono (Node.ids_child_subset (by simp [children])))
  | parallel _ _ children _ _ _ _ _ _ ih =>
    cases h with
    | parallel inner =>
      refine .parallel fun child activity member => ?_
      refine (ih child activity member (inner child activity member)).mono ?_
      exact Node.ids_child_subset (Context.Fits.lane_child_mem children member)

end Activity.Tried

namespace Run

/-- From one state to the next by changes to nodes of some ids, and what waits then has been tried
as often as it says. -/
structure Lawful (root : Node) (ids : List String) (s s' : RunState) (current : Option Activity) :
    Prop where
  changes : Changes root .heeding ids s s'
  tried : ∀ activity ∈ current, activity.Tried s'.context ids

variable {engine : Engine} {root node : Node} {ids more : List String} {s s' s'' : RunState}
  {current : Option Activity}

theorem Lawful.ended (changes : Changes root .heeding ids s s') : Lawful root ids s s' none :=
  ⟨changes, nofun⟩

theorem Lawful.waiting (changes : Changes root .heeding ids s s') {activity : Activity}
    (tried : activity.Tried s'.context ids) : Lawful root ids s s' (some activity) :=
  ⟨changes, fun _ member => Option.mem_some.1 member ▸ tried⟩

/-- Changes that came before may be added in front. -/
theorem Lawful.after (changes : Changes root .heeding ids s s')
    (h : Lawful root ids s' s'' current) :
    Lawful root ids s s'' current := ⟨changes.trans h.changes, h.tried⟩

theorem Lawful.mono (h : Lawful root ids s s' current) (subset : ids ⊆ more) :
    Lawful root more s s' current :=
  ⟨h.changes.mono subset, fun activity member => (h.tried activity member).mono subset⟩

/-- A task runs, and is in its attempt after some. -/
def Attempts (s : RunState) (node : Node) (made : Nat) : Prop :=
  ∃ since, s.context.phase node.id = .running since made

/-- A task that is tried runs. -/
theorem Attempts.running {made : Nat} (h : Attempts s node made) :
    s.context.state node.id = .running := by
  obtain ⟨since, phase⟩ := h
  rw [Context.state, phase]
  rfl

/-! ## Starting -/

section

variable {spec : TaskSpec} {call : Call} (inside : node ∈ root.preorder) (member : node.id ∈ ids)

include inside member

/-- After an attempt a task goes on by lawful changes. -/
theorem lawful_settle {left : Nat} {again : RunState → RunState × Progress}
    {outcome : Except Fault Json}
    (next : ∀ s : RunState, s.context.cancelled = false → left ≤ attempts spec →
      Attempts s node (attempts spec - left) → Lawful root ids s (again s).1 (again s).2.current?)
    (s : RunState) (tried : s.context.cancelled = false →
      left < attempts spec ∧ Attempts s node (attempts spec - (left + 1))) :
    Lawful root ids s (settle engine node spec call left again s outcome).1
      (settle engine node spec call left again s outcome).2.current? := by
  unfold settle
  by_cases dead : s.context.cancelled = true
  · rw [if_pos dead]
    exact .ended .refl
  · rw [if_neg dead]
    have live : s.context.cancelled = false := eq_false_of_ne_true dead
    cases outcome with
    | ok value => exact .ended .refl
    | error fault =>
      by_cases last : left = 0
      · simp only [last, if_true]
        exact .ended .refl
      · simp only [last, if_false]
        obtain ⟨more, since, phase⟩ := tried live
        have counted : attempts spec - left = attempts spec - (left + 1) + 1 := by omega
        have retried : Change root .heeding ids s (s.retry node.id (attempts spec - left) fault) := by
          rw [counted]
          exact change_retry inside member phase fault
        have running : Attempts (s.retry node.id (attempts spec - left) fault) node
            (attempts spec - left) := by
          refine ⟨since, ?_⟩
          rw [s.phase_retry, if_pos rfl, phase, counted]
          rfl
        split
        · exact (next (s.retry node.id (attempts spec - left) fault) live (Nat.le_of_lt more)
            running).after (.single retried)
        · obtain ⟨since, phase⟩ := running
          exact .waiting (.tail (.single retried) (change_takeTicket _))
            (.pausing member (Nat.le_of_lt more) phase)

/-- However often it is called, a task changes as its attempts tell. -/
theorem lawful_attempt (left : Nat) : ∀ s : RunState, s.context.cancelled = false →
    left ≤ attempts spec → Attempts s node (attempts spec - left) →
      Lawful root ids s (attempt engine node spec call left s).1
        (attempt engine node spec call left s).2.current? := by
  induction left with
  | zero => exact fun s _ _ _ => .ended .refl
  | succ left ih =>
    intro s live enough tried
    have placed : Change root .heeding ids s (s.place engine node.id call).2 :=
      change_place s engine member (fun _ => tried.running) call
    -- The attempt is over at once, after what the call does.
    have answered (effects : List Effect) (outcome : Except Fault Json) :
        Lawful root ids s
          (settle engine node spec call left (attempt engine node spec call left)
            ((s.place engine node.id call).2.applyAll effects) outcome).1
          (settle engine node spec call left (attempt engine node spec call left)
            ((s.place engine node.id call).2.applyAll effects) outcome).2.current? := by
      have effected : Change root .heeding ids (s.place engine node.id call).2 _ :=
        change_applyAll _ effects
      refine (lawful_settle inside member ih _ fun live => ⟨enough, ?_⟩).after
        (.tail (.single placed) effected)
      obtain ⟨since, phase⟩ := tried
      refine ⟨since, ?_⟩
      rw [RunState.phase_applyAll_of_live _ live]
      exact phase
    simp only [attempt]
    split
    · exact answered _ _
    · split
      · exact answered _ _
      · obtain ⟨since, phase⟩ := tried
        exact .waiting (.tail (.tail (.single placed) (change_note _)) (change_takeTicket _))
          (.calling member enough phase)

end

theorem lawful_poll {spec : WaitSpec} {deadline : Option Nat} (s : RunState) :
    Lawful root ids s (poll engine node spec deadline s).1
      (poll engine node spec deadline s).2.current? := by
  unfold poll
  split
  · exact .ended .refl
  · split
    · exact .ended .refl
    · dsimp only
      split
      · exact .ended .refl
      · exact .waiting (.single (change_takeTicket s)) .polling

theorem lawful_asSequence {p : RunState × Course} (h : Lawful root ids s p.1 p.2.current?) :
    Lawful root ids s (asSequence node p).1 (asSequence node p).2.current? := by
  obtain ⟨s', course⟩ := p
  cases course with
  | ended outcome => exact .ended h.changes
  | waiting done current rest => exact .waiting h.changes (.sequence (h.tried current rfl))

theorem lawful_asBranch {p : RunState × Progress} (h : Lawful root ids s p.1 p.2.current?) :
    Lawful root ids s (asBranch node p).1 (asBranch node p).2.current? := by
  obtain ⟨s', progress⟩ := p
  cases progress with
  | ended outcome => exact .ended h.changes
  | waiting current => exact .waiting h.changes (.branch (h.tried current rfl))

/-- Below a node that runs, an untouched child may start. -/
abbrev Starts (engine : Engine) (root node child : Node) : Prop :=
  ∀ s : RunState, s.context.cancelled = false → s.context.state node.id = .running →
    s.context.Untouched child →
      Lawful root child.ids s (start engine s child).1 (start engine s child).2.current?

/-- Steps in turn start below their running parent, one after the other. -/
theorem lawful_startAll {nodes : List Node} (each : ∀ child ∈ nodes, Starts engine root node child)
    (outside : node.id ∉ Node.idsAll nodes) (distinct : (Node.idsAll nodes).Nodup)
    (done : List Json) : ∀ s : RunState, s.context.cancelled = false →
      s.context.state node.id = .running → (∀ child ∈ nodes, s.context.Untouched child) →
      Lawful root (Node.idsAll nodes) s (startAll engine done s nodes).1
        (startAll engine done s nodes).2.current? := by
  induction nodes generalizing done with
  | nil =>
    intro s _ _ _
    rw [startAll]
    exact .ended .refl
  | cons child rest ih =>
    intro s live running untouched
    rw [List.forall_mem_cons] at each untouched
    have first := (each.1 s live running untouched.1).mono
      (List.subset_append_left child.ids (Node.idsAll rest))
    have advance := advances_start engine child s
    have apart := Node.disjoint_of_cons distinct
    rw [startAll]
    generalize start engine s child = p at first advance
    obtain ⟨s', progress⟩ := p
    cases progress with
    | waiting current => exact first
    | ended outcome =>
      cases outcome with
      | error fault => exact .ended first.changes
      | ok value =>
        have live' : s'.context.cancelled = false := advance.heeds
        have alone := advance.acts.leftAlone fun hid =>
          outside (List.mem_append_left _ hid : node.id ∈ Node.idsAll (child :: rest))
        have others := ih each.2 (fun hid => outside (List.mem_append_right _ hid))
          (Node.nodup_of_cons distinct).2 (done ++ [value]) s' live'
          ((alone.state_eq live').trans running) fun n hn =>
            advance.acts.untouched (Node.disjoint_of_mem (List.disjoint_symm apart) hn)
              (untouched.2 n hn)
        exact (others.mono (List.subset_append_right _ _)).after first.changes

theorem lawful_startBranch {nodes : List Node}
    (each : ∀ child ∈ nodes, Starts engine root node child) (side : Branch)
    (live : s.context.cancelled = false) (running : s.context.state node.id = .running)
    (untouched : ∀ child ∈ nodes, s.context.Untouched child) :
    Lawful root (Node.idsAll nodes) s (startBranch engine side s nodes).1
      (startBranch engine side s nodes).2.current? := by
  rcases startBranch_eq engine side s nodes with idle | ⟨before, child, after, split, started⟩
  · rw [idle]
    exact .ended .refl
  · rw [started]
    have member : child ∈ nodes := by simp [split]
    exact (each child member s live running (untouched child member)).mono
      (Node.idsAll_subset member)

/-- The rounds of a loop rearm its body and start it again, by lawful changes. -/
theorem lawful_rounds {spec : LoopSpec} {body : RunState → RunState × Course}
    (inside : node ∈ root.preorder) (distinct : node.ids.Nodup)
    (round : ∀ s : RunState, s.context.cancelled = false → s.context.state node.id = .running →
      (∀ child ∈ node.children, s.context.Untouched child) →
      Lawful root (Node.idsAll node.children) s (body s).1 (body s).2.current?)
    (goes : ∀ s : RunState, s.context.cancelled = false →
      Proceeds engine (Node.idsAll node.children) s (body s)) (remaining : Nat) :
    ∀ (first : Bool) (finished : List Json) (s : RunState), s.context.cancelled = false →
      s.context.state node.id = .running →
      (first = true → ∀ child ∈ node.children, s.context.Untouched child) →
      Lawful root (Node.idsAll node.children) s
        (rounds node spec body remaining first finished s).1
        (rounds node spec body remaining first finished s).2.current? := by
  have outside := Node.id_notMem_children distinct
  induction remaining with
  | zero => exact fun _ _ _ _ _ _ => .ended .refl
  | succ remaining ih =>
    intro first finished s live running untouched
    rw [rounds, if_neg (ne_true_of_eq_false live)]
    split
    · exact .ended .refl
    · -- The body starts in the same state, or in one in which it is rearmed.
      have ready : ∃ s', (if first then s else s.rearm node.children) = s' ∧
          Changes root .heeding (Node.idsAll node.children) s s' ∧ s'.context.cancelled = false ∧
          s'.context.state node.id = .running ∧
          ∀ child ∈ node.children, s'.context.Untouched child := by
        cases first with
        | true => exact ⟨s, rfl, .refl, live, running, untouched rfl⟩
        | false =>
          have same := (s.phase_rearm node.children node.id).trans (if_neg outside)
          exact ⟨_, rfl, .single (change_rearm inside (List.Subset.refl _)),
            (s.cancelled_rearm _).trans live, (congrArg Phase.state same).trans running,
            fun _ => s.untouched_rearm⟩
      obtain ⟨s', heq, changes, live', running', untouched'⟩ := ready
      rw [heq]
      have done := (round s' live' running' untouched').after changes
      have goes := goes s' live'
      generalize body s' = p at done goes
      obtain ⟨s'', course⟩ := p
      cases course with
      | waiting done' current rest => exact .waiting done.changes (.loop (done.tried current rfl))
      | ended outcome =>
        have heeds := heeds_afterRound spec finished goes.heeds
        dsimp only
        generalize afterRound spec finished outcome = next at heeds
        cases next with
        | inl outcome => exact .ended done.changes
        | inr finished =>
          have runs := ((goes.acts.leftAlone outside).state_eq heeds).trans running'
          exact (ih false finished s'' heeds runs fun same => by cases same).after done.changes

/-- A block that stops sweeps its children one after the other. -/
theorem lawful_stop (inside : node ∈ root.preorder) {before after : List (Lane Activity)}
    {queue : List Node} (members : (before ++ after).map Lane.child ++ queue ⊆ node.children)
    (outcome : Except Fault Json) (s : RunState) :
    Lawful root (Node.idsAll node.children) s (stop before after queue outcome s).1
      (stop before after queue outcome s).2.current? := by
  have subset : before.filterMap Lane.unfinished? ++ after.filterMap Lane.unfinished? ++ queue ⊆
      node.children := by
    intro n member
    apply members
    rw [← List.filterMap_append, List.mem_append, List.mem_filterMap] at member
    rw [List.mem_append, List.mem_map]
    rcases member with ⟨lane, hlane, unfinished⟩ | member
    · exact .inl ⟨lane, hlane, unfinished?_eq_some unfinished⟩
    · exact .inr member
  refine .ended (changes_sweep inside subset ?_ s)
  intro id hid
  obtain ⟨n, hn, hid⟩ := Node.mem_idsAll.1 hid
  exact Node.idsAll_subset (subset hn) hid

/-- The tasks that wait in some lanes have been tried as often as they say. -/
abbrev LanesTried (context : Context) (lanes : List (Lane Activity)) : Prop :=
  ∀ child activity, .running child activity ∈ lanes → activity.Tried context child.ids

namespace LanesTried

variable {context : Context} {lanes others : List (Lane Activity)}

/-- Lanes may be put side by side. -/
theorem append (h : LanesTried context lanes) (more : LanesTried context others) :
    LanesTried context (lanes ++ others) := fun child activity member =>
  (List.mem_append.1 member).elim (h child activity) (more child activity)

theorem running {child : Node} {activity : Activity} (h : activity.Tried context child.ids) :
    LanesTried context [.running child activity] := by
  intro _ _ member
  cases List.mem_singleton.1 member
  exact h

/-- What happens in the tree of one child leaves the lanes of the others as they are. -/
theorem aside {s s' : RunState} (h : LanesTried s.context lanes)
    (changes : Changes root .heeding ids s s') (live : s'.context.cancelled = false)
    (apart : ∀ lane ∈ lanes, lane.child.ids.Disjoint ids) : LanesTried s'.context lanes :=
  fun child activity member => (h child activity member).keep fun _ hid =>
    changes.aside live (apart _ member hid)

end LanesTried

section

variable {spec : ParallelSpec} {limit : Nat}

/-- A block that waits has tried what is in its lanes. -/
theorem tried_parallel {context : Context} {lanes : List (Lane Activity)} {queue : List Node}
    {door : Option Nat} {firstError : Option Fault} (tried : LanesTried context lanes)
    (children : node.children = lanes.map Lane.child ++ queue) :
    (Activity.parallel node spec lanes queue door firstError).Tried context
      (Node.idsAll node.children) := by
  refine .parallel fun child activity member => ?_
  refine (tried child activity member).mono (Node.idsAll_subset ?_)
  exact Context.Fits.lane_child_mem children member

/-- A block that goes on changes nothing. -/
theorem lawful_carryOn {lanes : List (Lane Activity)} {queue : List Node}
    (firstError : Option Fault) (tried : LanesTried s.context lanes)
    (children : node.children = lanes.map Lane.child ++ queue) :
    Lawful root (Node.idsAll node.children) s
      (carryOn node spec limit lanes firstError s queue).1
      (carryOn node spec limit lanes firstError s queue).2.current? := by
  cases queue with
  | nil =>
    rw [carryOn]
    split
    · exact .waiting .refl (tried_parallel tried children)
    · exact .ended .refl
  | cons child rest =>
    rw [carryOn]
    split
    · exact .waiting .refl (tried_parallel tried children)
    · exact .waiting (.single (change_takeTicket s)) (tried_parallel tried children)

/-- A block goes on after a child, or stops, by lawful changes. -/
theorem lawful_afterChild (inside : node ∈ root.preorder) {before after : List (Lane Activity)}
    {child : Node} {queue : List Node} {firstError : Option Fault} {outcome : Except Fault Json}
    (plain : PlainError firstError)
    (children : node.children = before.map Lane.child ++ child :: after.map Lane.child ++ queue)
    (heeds : Heeds s.context.cancelled (some outcome))
    (tried : s.context.cancelled = false → LanesTried s.context (before ++ after)) :
    Lawful root (Node.idsAll node.children) s
      (afterChild node spec limit queue firstError s before child outcome after).1
      (afterChild node spec limit queue firstError s before child outcome after).2.current? := by
  have heeds := heeds_judge spec plain child heeds
  unfold afterChild
  generalize judge spec firstError child outcome = verdict at heeds
  cases verdict with
  | goOn slot firstError =>
    have others := tried heeds.1
    refine lawful_carryOn firstError (fun n activity member => ?_) ?_
    · rw [List.append_assoc, List.singleton_append, List.mem_append, List.mem_cons] at member
      rcases member with member | same | member
      · exact others n activity (List.mem_append_left _ member)
      · cases same
      · exact others n activity (List.mem_append_right _ member)
    · rw [children, List.append_assoc before, List.map_append, List.map_append, List.map_singleton]
      rfl
  | stop outcome =>
    refine lawful_stop inside ?_ outcome s
    rw [children]
    intro n hn
    simp only [List.map_append, List.mem_append, List.mem_cons] at hn ⊢
    tauto

end

/-- The work of a node is done by lawful changes of what is below it. -/
theorem lawful_work (inside : node ∈ root.preorder) (distinct : node.ids.Nodup)
    (each : ∀ child ∈ node.children, Starts engine root node child) (s : RunState)
    (live : s.context.cancelled = false) (begun : Attempts s node 0)
    (untouched : ∀ child ∈ node.children, s.context.Untouched child) :
    Lawful root node.ids s (work engine node s).1 (work engine node s).2.current? := by
  have running := begun.running
  have outside := Node.id_notMem_children distinct
  have below := Node.nodup_children distinct
  have subset := node.idsAll_children_subset
  unfold work
  split
  · next spec kind =>
    refine lawful_attempt inside node.mem_ids_self (attempts spec) s live (Nat.le_refl _) ?_
    rw [Nat.sub_self]
    exact begun
  · exact (lawful_asSequence
      (lawful_startAll each outside below [] s live running untouched)).mono subset
  · have lanes : LanesTried s.context [] := fun _ _ member => absurd member List.not_mem_nil
    exact (lawful_carryOn none lanes rfl).mono subset
  · exact (lawful_asBranch (lawful_startBranch each _ live running untouched)).mono subset
  · have goes (s : RunState) (live : s.context.cancelled = false) :
        Proceeds engine (Node.idsAll node.children) s (startAll engine [] s node.children) :=
      proceeds_startAll (fun child member s => (advances_start engine child s).mono
        (Node.idsAll_subset member)) [] s live
    exact (lawful_rounds inside distinct (lawful_startAll each outside below []) goes _ true [] s
      live running fun _ => untouched).mono subset
  · exact lawful_poll s

/-- A node ends by a lawful change when nothing below it runs. -/
theorem lawful_close (inside : node ∈ root.preorder) {p : RunState × Progress}
    (h : Lawful root node.ids s p.1 p.2.current?) (worked : p.1.context.Worked node p.2) :
    Lawful root node.ids s (close node p).1 (close node p).2.current? := by
  obtain ⟨s', progress⟩ := p
  cases progress with
  | waiting activity => exact h
  | ended outcome =>
    have settled : s'.context.SettledBelow node := worked
    refine .ended (h.changes.tail (change_record inside node.mem_ids_self ?_ outcome))
    intro child member
    exact settled.idle child.id (Node.idsAll_subset member child.mem_ids_self)

/-- A node of an untouched tree starts by the rules, if its parent runs. -/
theorem lawful_start (distinct : root.ids.Nodup) (node : Node) (inside : node ∈ root.preorder)
    (s : RunState) (untouched : s.context.Untouched node)
    (above : s.context.cancelled = false → node = root ∨ ∃ parent ∈ root.preorder,
      node ∈ parent.children ∧ s.context.state parent.id = .running) :
    Lawful root node.ids s (start engine s node).1 (start engine s node).2.current? := by
  induction node using Node.induction generalizing s with
  | step node ih =>
    rw [start_eq]
    by_cases dead : s.context.cancelled = true
    · rw [if_pos dead]
      exact .ended (.single (change_touch s node.id))
    · rw [if_neg dead]
      have live : s.context.cancelled = false := eq_false_of_ne_true dead
      have own := Node.nodup_ids_of_mem_preorder distinct inside
      have pending := untouched node.id node.mem_ids_self
      have begun : Change root .heeding node.ids s (s.startNode node) :=
        change_startNode inside node.mem_ids_self pending (above live)
      have phase : (s.startNode node).context.phase node.id = .running s.now 0 := by
        rw [s.phase_startNode, if_pos rfl, pending]
        rfl
      have below := (s.startNode_of_untouched untouched own).2
      have each (child : Node) (member : child ∈ node.children) :
          Starts engine root node child := by
        intro s live running untouched
        have within := Node.mem_preorder_child inside member
        exact ih child member within s untouched fun _ => .inr ⟨node, inside, member, running⟩
      have works : Lawful root node.ids (s.startNode node) _
          (work engine node (s.startNode node)).2.current? :=
        lawful_work inside own each _ live ⟨s.now, phase⟩ below
      refine lawful_close inside (works.after (.single begun)) ?_
      exact worked_work (fun child _ s => placed_start engine child s) (s.startNode node) live below
        (Node.nodup_children own)

end Run

end Stepwise

import Stepwise.Proofs.Run.Throughout

/-!
# Races

The children of a parallel block run side by side: each is started when its turn comes, in the
order in which they stand in the block, goes on whenever a wait of its own is over, and arrives when
it ends. `Race` says no more than that, so it allows any order of arrivals. `Decides` says which
arrivals decide what a block comes to. An execution of a block is a race that goes on as long as
nothing is decided, in which the turn of a child has come just if it is the next one and there are
free lanes, and ends with what decides it (`Execution.raced`).
-/

namespace Stepwise

/-- A child of a block that has ended, and its outcome. -/
structure Arrival where
  child : Node
  outcome : Except Fault Json

namespace Arrival

/-- The part that an arrival has in the value of its block: the value of the child, or the value
that stands for its failure. -/
def slot (arrival : Arrival) : Json :=
  match arrival.outcome with
  | .ok value => value
  | .error fault => fault.value arrival.child.id

/-- The block goes on after an arrival: after a success if it waits for all, and after a failure
that is no cancellation unless it waits for all and fails fast. -/
def Passes (spec : ParallelSpec) (arrival : Arrival) : Prop :=
  match arrival.outcome with
  | .ok _ => spec.waitForAll = true
  | .error fault =>
    fault.isCancelled = false ∧ ¬ (spec.waitForAll = true ∧ spec.failFast = true)

/-- The fault of a child that has failed. -/
def fault? (arrival : Arrival) : Option Fault :=
  match arrival.outcome with
  | .ok _ => none
  | .error fault => some fault

/-- A block that does not wait for all goes on after failures only. -/
theorem Passes.fails {spec : ParallelSpec} {arrival : Arrival} (h : arrival.Passes spec)
    (any : spec.waitForAll = false) : ∃ fault, arrival = ⟨arrival.child, .error fault⟩ := by
  obtain ⟨child, outcome⟩ := arrival
  cases outcome with
  | error fault => exact ⟨fault, rfl⟩
  | ok value =>
    have all : spec.waitForAll = true := h
    rw [any] at all
    cases all

end Arrival

/-- The part of a child in the value of a block: null unless it has arrived. -/
def slotIn (arrivals : List Arrival) (child : Node) : Json :=
  ((arrivals.find? (fun arrival => arrival.child.id = child.id)).map Arrival.slot).getD .null

/-- The fault of the first child that has failed. -/
def firstFault (arrivals : List Arrival) : Option Fault := arrivals.findSome? Arrival.fault?

/-- All children have arrived. -/
def Complete (children : List Node) (arrivals : List Arrival) : Prop :=
  ∀ child ∈ children, ∃ arrival ∈ arrivals, arrival.child = child

/-- The arrivals at a block, in the order in which the children end, decide what it comes to. -/
inductive Decides (spec : ParallelSpec) (children : List Node) :
    List Arrival → Except Fault Json → Prop
  /-- The first cancellation is that of the block. -/
  | cancelled {earlier : List Arrival} {child : Node} {fault : Fault}
      (passed : ∀ arrival ∈ earlier, arrival.Passes spec) (cancels : fault.isCancelled = true) :
      Decides spec children (earlier ++ [⟨child, .error fault⟩]) (.error fault)
  /-- If the block waits for all and fails fast, the first failure is its own. -/
  | failed {earlier : List Arrival} {child : Node} {fault : Fault}
      (passed : ∀ arrival ∈ earlier, arrival.Passes spec) (plain : fault.isCancelled = false)
      (all : spec.waitForAll = true) (fast : spec.failFast = true) :
      Decides spec children (earlier ++ [⟨child, .error fault⟩]) (.error fault)
  /-- If it does not wait for all, the first success is enough. -/
  | won {earlier : List Arrival} {child : Node} {value : Json}
      (passed : ∀ arrival ∈ earlier, arrival.Passes spec) (any : spec.waitForAll = false) :
      Decides spec children (earlier ++ [⟨child, .ok value⟩])
        (.ok (.arr (children.map (slotIn (earlier ++ [⟨child, .ok value⟩])))))
  /-- If it waits for all and nothing stops it, it comes to the parts of all. -/
  | gathered {arrivals : List Arrival} (passed : ∀ arrival ∈ arrivals, arrival.Passes spec)
      (complete : Complete children arrivals) (all : spec.waitForAll = true) :
      Decides spec children arrivals (.ok (.arr (children.map (slotIn arrivals))))
  /-- If it does not wait for all, fails fast, and no child succeeds, it fails as the first. -/
  | lost {child : Node} {fault : Fault} {later : List Arrival}
      (passed : ∀ arrival ∈ ⟨child, .error fault⟩ :: later, arrival.Passes spec)
      (complete : Complete children (⟨child, .error fault⟩ :: later))
      (any : spec.waitForAll = false) (fast : spec.failFast = true) :
      Decides spec children (⟨child, .error fault⟩ :: later) (.error fault)
  /-- If it does not fail fast either, or there is nothing to wait for, it comes to the parts of
  all. -/
  | spent {arrivals : List Arrival} (passed : ∀ arrival ∈ arrivals, arrival.Passes spec)
      (complete : Complete children arrivals) (any : spec.waitForAll = false)
      (slow : spec.failFast = false ∨ arrivals = []) :
      Decides spec children arrivals (.ok (.arr (children.map (slotIn arrivals))))

namespace Run

/-- A race of the children of a block that was started in some state: those that have arrived, in
the order in which they did, those that run, those whose turn has not come, and the state. -/
inductive Race (engine : Engine) (block : Node) (s₀ : RunState) :
    List Arrival → List (Node × Activity) → List Node → RunState → Prop
  /-- The block has started. -/
  | sets : Race engine block s₀ [] [] block.children (s₀.startNode block)
  /-- Others go on aside. -/
  | aside {arrivals : List Arrival} {running : List (Node × Activity)} {waiting : List Node}
      {s s' : RunState} (race : Race engine block s₀ arrivals running waiting s)
      (aside : Aside block.ids s s') : Race engine block s₀ arrivals running waiting s'
  /-- The turn of a child has come, and it waits for something. -/
  | departs {arrivals : List Arrival} {running : List (Node × Activity)} {waiting : List Node}
      {child : Node} {activity : Activity} {s s' : RunState}
      (race : Race engine block s₀ arrivals running (child :: waiting) s)
      (starts : start engine s child = (s', .waiting activity)) :
      Race engine block s₀ arrivals (running ++ [(child, activity)]) waiting s'
  /-- The turn of a child has come, and it arrives at once. -/
  | dashes {arrivals : List Arrival} {running : List (Node × Activity)} {waiting : List Node}
      {child : Node} {outcome : Except Fault Json} {s s' : RunState}
      (race : Race engine block s₀ arrivals running (child :: waiting) s)
      (starts : start engine s child = (s', .ended outcome)) :
      Race engine block s₀ (arrivals ++ [⟨child, outcome⟩]) running waiting s'
  /-- A child that runs goes on, and waits for something else. -/
  | goesOn {arrivals : List Arrival} {before after : List (Node × Activity)} {waiting : List Node}
      {child : Node} {activity next : Activity} {bell : Bell} {s s' : RunState}
      (race : Race engine block s₀ arrivals (before ++ (child, activity) :: after) waiting s)
      (held : bell.ticket ∈ activity.tickets)
      (goes : resume engine bell s activity = (s', .waiting next)) :
      Race engine block s₀ arrivals (before ++ (child, next) :: after) waiting s'
  /-- A child that runs goes on, and arrives. -/
  | arrives {arrivals : List Arrival} {before after : List (Node × Activity)} {waiting : List Node}
      {child : Node} {activity : Activity} {outcome : Except Fault Json} {bell : Bell}
      {s s' : RunState}
      (race : Race engine block s₀ arrivals (before ++ (child, activity) :: after) waiting s)
      (held : bell.ticket ∈ activity.tickets)
      (goes : resume engine bell s activity = (s', .ended outcome)) :
      Race engine block s₀ (arrivals ++ [⟨child, outcome⟩]) (before ++ after) waiting s'

variable {engine : Engine} {block : Node} {s₀ s : RunState} {arrivals : List Arrival}
  {running : List (Node × Activity)} {waiting : List Node}

/-- Every child has arrived, runs, or waits for its turn. -/
theorem Race.perm (race : Race engine block s₀ arrivals running waiting s) :
    (arrivals.map Arrival.child ++ (running.map Prod.fst ++ waiting)).Perm block.children := by
  induction race with
  | sets => exact .refl _
  | aside _ _ ih => exact ih
  | departs _ _ ih => simpa using ih
  | goesOn _ _ _ ih => simpa using ih
  | dashes _ _ ih | arrives _ _ _ ih =>
    refine .trans ?_ ih
    simp only [List.map_append, List.map_cons, List.map_nil, List.append_assoc, List.cons_append,
      List.nil_append]
    exact .append_left _ List.perm_middle.symm

/-! ## Lanes -/

end Run

/-- The child that runs in a lane, and what it waits for. -/
def Lane.running? {α : Type} : Lane α → Option (Node × α)
  | running child activity => some (child, activity)
  | ended .. => none

/-- The child that has ended in a lane, and its part in the value of the block. -/
def Lane.ended? {α : Type} : Lane α → Option (Node × Json)
  | running .. => none
  | ended child slot => some (child, slot)

namespace Run

/-- The lanes of a block show who has arrived and who runs. -/
structure Lined (arrivals : List Arrival) (running : List (Node × Activity))
    (lanes : List (Lane Activity)) : Prop where
  runs : lanes.filterMap Lane.running? = running
  arrived : (lanes.filterMap Lane.ended?).Perm
    (arrivals.map fun arrival => (arrival.child, arrival.slot))

variable {engine : Engine} {spec : ParallelSpec} {block child : Node} {s₀ s : RunState}
  {arrivals : List Arrival} {running : List (Node × Activity)}
  {lanes before after : List (Lane Activity)} {queue : List Node} {firstError : Option Fault}

/-- As many children run as there are lanes with one that has not ended. -/
theorem length_running :
    (lanes.filterMap Lane.running?).length = lanes.countP Lane.isRunning := by
  rw [List.length_filterMap_eq_countP]
  refine List.countP_congr fun lane _ => ?_
  cases lane <;> exact Iff.rfl

/-- The children that have not ended are those that run. -/
theorem unfinished_running :
    lanes.filterMap Lane.unfinished? = (lanes.filterMap Lane.running?).map Prod.fst := by
  rw [List.map_filterMap]
  refine List.filterMap_congr fun lane _ => ?_
  cases lane <;> rfl

namespace Lined

/-- Each child that has ended has arrived, with its slot. -/
theorem mem_ended (h : Lined arrivals running lanes) {slot : Json}
    (member : .ended child slot ∈ lanes) :
    ∃ arrival ∈ arrivals, arrival.child = child ∧ arrival.slot = slot := by
  have inside : (child, slot) ∈ lanes.filterMap Lane.ended? :=
    List.mem_filterMap.2 ⟨_, member, rfl⟩
  obtain ⟨arrival, arrived, same⟩ := List.mem_map.1 (h.arrived.subset inside)
  obtain ⟨rfl, rfl⟩ := Prod.mk.inj same
  exact ⟨arrival, arrived, rfl, rfl⟩

/-- Each that has arrived stands in its lane, with its slot. -/
theorem mem_lanes (h : Lined arrivals running lanes) {arrival : Arrival}
    (arrived : arrival ∈ arrivals) : .ended arrival.child arrival.slot ∈ lanes := by
  have inside : (arrival.child, arrival.slot) ∈ lanes.filterMap Lane.ended? :=
    h.arrived.symm.subset (List.mem_map.2 ⟨arrival, arrived, rfl⟩)
  obtain ⟨lane, member, same⟩ := List.mem_filterMap.1 inside
  cases lane with
  | running => cases same
  | ended child slot =>
    cases same
    exact member

/-- The part of a lane in the value of the block is that of its child. -/
theorem slot_eq (h : Lined arrivals running lanes)
    (distinct : (lanes.map fun lane => lane.child.id).Nodup) {lane : Lane Activity}
    (member : lane ∈ lanes) : slotIn arrivals lane.child = lane.slot := by
  have only {arrival : Arrival} (arrived : arrival ∈ arrivals)
      (same : arrival.child.id = lane.child.id) : Lane.ended arrival.child arrival.slot = lane :=
    List.inj_on_of_nodup_map distinct (h.mem_lanes arrived) member same
  unfold slotIn
  cases found : arrivals.find? (fun arrival => arrival.child.id = lane.child.id) with
  | some arrival =>
    have same : arrival.child.id = lane.child.id := by simpa using List.find?_some found
    rw [← only (List.mem_of_find?_eq_some found) same]
    rfl
  | none =>
    cases lane with
    | running child activity => rfl
    | ended child slot =>
      obtain ⟨arrival, arrived, same, -⟩ := h.mem_ended member
      have missed := List.find?_eq_none.1 found arrival arrived
      simp [Lane.child, same] at missed

/-- A child whose turn has not come has no part in the value of the block. -/
theorem slot_of_waiting (h : Lined arrivals running lanes)
    (apart : ∀ lane ∈ lanes, lane.child.id ≠ child.id) : slotIn arrivals child = .null := by
  have found : arrivals.find? (fun arrival => arrival.child.id = child.id) = none := by
    refine List.find?_eq_none.2 fun arrival arrived same => ?_
    exact apart _ (h.mem_lanes arrived) (of_decide_eq_true same)
  rw [slotIn, found]
  rfl

/-- The value of a block is made of the parts of its lanes, and of nothing for those who wait. -/
theorem slots_eq (h : Lined arrivals running lanes)
    (distinct : ((lanes.map Lane.child ++ queue).map Node.id).Nodup) :
    lanes.map Lane.slot ++ queue.map (fun _ => Json.null) =
      (lanes.map Lane.child ++ queue).map (slotIn arrivals) := by
  rw [List.map_append, List.map_map] at distinct
  obtain ⟨own, -, apart⟩ := List.nodup_append.1 distinct
  rw [List.map_append, List.map_map]
  congr 1
  · exact List.map_congr_left fun lane member => (h.slot_eq own member).symm
  · refine List.map_congr_left fun n member => (h.slot_of_waiting fun lane hlane => ?_).symm
    exact apart _ (List.mem_map_of_mem hlane) _ (List.mem_map_of_mem member)

end Lined

/-- A child arrives between the other lanes of its block. -/
theorem Lined.arrive (h : Lined arrivals running (before ++ after)) (arrival : Arrival) :
    Lined (arrivals ++ [arrival]) running
      (before ++ .ended arrival.child arrival.slot :: after) := by
  refine ⟨?_, ?_⟩
  · rw [← h.runs, List.filterMap_append, List.filterMap_append]
    rfl
  · have others := h.arrived
    rw [List.filterMap_append] at others
    rw [List.filterMap_append, List.map_append]
    refine .trans List.perm_middle ?_
    exact (others.cons (arrival.child, arrival.slot)).trans (List.perm_append_singleton ..).symm

/-- A child starts to run in the last lane. -/
theorem Lined.depart (h : Lined arrivals running lanes) (child : Node) (activity : Activity) :
    Lined arrivals (running ++ [(child, activity)]) (lanes ++ [.running child activity]) := by
  refine ⟨?_, ?_⟩
  · rw [List.filterMap_append, h.runs]
    rfl
  · rw [List.filterMap_append]
    exact (List.append_nil _).symm ▸ h.arrived

/-! ## Verdicts -/

/-- The first fault stays the first. -/
theorem firstFault_append (arrivals : List Arrival) (arrival : Arrival) :
    firstFault (arrivals ++ [arrival]) = (firstFault arrivals).or arrival.fault? := by
  unfold firstFault
  rw [List.findSome?_append]
  congr 1
  cases fault : arrival.fault? <;> simp [List.findSome?, fault]

/-- How the block judges an arrival: it goes on, or the outcome decides. -/
theorem judge_cases (spec : ParallelSpec) (arrivals : List Arrival) (arrival : Arrival) :
    (arrival.Passes spec ∧ judge spec (firstFault arrivals) arrival.child arrival.outcome =
      .goOn arrival.slot (firstFault (arrivals ++ [arrival]))) ∨
    (∃ fault, arrival.outcome = .error fault ∧
      (fault.isCancelled = true ∨
        fault.isCancelled = false ∧ spec.waitForAll = true ∧ spec.failFast = true) ∧
      judge spec (firstFault arrivals) arrival.child arrival.outcome = .stop (.error fault)) ∨
    ∃ value, arrival.outcome = .ok value ∧ spec.waitForAll = false ∧
      judge spec (firstFault arrivals) arrival.child arrival.outcome = .stop (.ok value) := by
  obtain ⟨child, outcome⟩ := arrival
  rw [firstFault_append]
  cases outcome with
  | ok value =>
    cases all : spec.waitForAll with
    | true => exact .inl ⟨all, by simp [judge, all, Arrival.slot, Arrival.fault?]⟩
    | false => exact .inr (.inr ⟨value, rfl, rfl, by simp [judge, all]⟩)
  | error fault =>
    by_cases dead : fault.isCancelled = true
    · exact .inr (.inl ⟨fault, rfl, .inl dead, by simp [judge, dead]⟩)
    · have plain : fault.isCancelled = false := eq_false_of_ne_true dead
      by_cases stops : spec.waitForAll = true ∧ spec.failFast = true
      · refine .inr (.inl ⟨fault, rfl, .inr ⟨plain, stops⟩, ?_⟩)
        simp [judge, stops.1, stops.2]
      · refine .inl ⟨⟨plain, stops⟩, ?_⟩
        have goes : ¬ (spec.failFast = true ∧ spec.waitForAll = true) := fun h => stops h.symm
        simp [judge, plain, goes, Arrival.slot, Arrival.fault?]

/-! ## Executions of blocks -/

/-- A block whose race is not decided: its lanes show who has arrived and who runs, and its queue
who waits. -/
structure Underway (engine : Engine) (spec : ParallelSpec) (block : Node) (s₀ : RunState)
    (arrivals : List Arrival) (running : List (Node × Activity)) (lanes : List (Lane Activity))
    (queue : List Node) (firstError : Option Fault) (s : RunState) : Prop where
  race : Race engine block s₀ arrivals running queue s
  lined : Lined arrivals running lanes
  passed : ∀ arrival ∈ arrivals, arrival.Passes spec
  error : firstError = firstFault arrivals
  children : block.children = lanes.map Lane.child ++ queue

/-- What a block has come to in its race: it is underway, and the turn of the next child has come
just if there are free lanes, or the race is decided and whoever has not arrived is stopped. -/
inductive Raced (engine : Engine) (spec : ParallelSpec) (block : Node) (s₀ : RunState) :
    RunState × Progress → Prop
  | waits {arrivals : List Arrival} {running : List (Node × Activity)}
      {lanes : List (Lane Activity)} {queue : List Node} {door : Option Nat}
      {firstError : Option Fault} {s : RunState}
      (underway : Underway engine spec block s₀ arrivals running lanes queue firstError s)
      (within : running.length ≤ laneLimit spec block.children.length)
      (turn : door.isSome = true ↔
        queue ≠ [] ∧ running.length < laneLimit spec block.children.length) :
      Raced engine spec block s₀ (s, .waiting (.parallel block spec lanes queue door firstError))
  | decided {arrivals : List Arrival} {running : List (Node × Activity)} {waiting : List Node}
      {outcome : Except Fault Json} {s : RunState}
      (race : Race engine block s₀ arrivals running waiting s)
      (decides : Decides spec block.children arrivals outcome) :
      Raced engine spec block s₀ (s.sweep (running.map Prod.fst ++ waiting), .ended outcome)

/-- A race in which nobody runs or waits any more is decided as the block concludes. -/
theorem Underway.decides (h : Underway engine spec block s₀ arrivals running lanes [] firstError s)
    (distinct : (block.children.map Node.id).Nodup) (idle : lanes.any Lane.isRunning = false) :
    Decides spec block.children arrivals (conclude spec lanes firstError) := by
  have slots : lanes.map Lane.slot = block.children.map (slotIn arrivals) := by
    have same := h.lined.slots_eq (h.children ▸ distinct)
    rw [List.map_nil, List.append_nil] at same
    rw [same, h.children]
  have complete : Complete block.children arrivals := by
    intro child member
    rw [h.children, List.append_nil] at member
    obtain ⟨lane, hlane, rfl⟩ := List.mem_map.1 member
    cases lane with
    | running child activity => exact absurd rfl (List.any_eq_false.1 idle _ hlane)
    | ended child slot =>
      obtain ⟨arrival, arrived, same, -⟩ := h.lined.mem_ended hlane
      exact ⟨arrival, arrived, same⟩
  have error := h.error
  cases all : spec.waitForAll with
  | true =>
    have concludes : conclude spec lanes firstError = .ok (.arr (lanes.map Lane.slot)) := by
      cases firstError <;> simp [conclude, all]
    rw [concludes, slots]
    exact .gathered h.passed complete all
  | false =>
    by_cases fast : spec.failFast = true
    · cases arrivals with
      | nil =>
        have none : firstError = none := error
        rw [none, conclude, slots]
        exact .spent h.passed complete all (.inr rfl)
      | cons first later =>
        -- All have failed, so the first failure is that of the first to arrive.
        obtain ⟨fault, same⟩ := (h.passed first List.mem_cons_self).fails all
        have known : firstError = some fault := by
          rw [error, same]
          rfl
        have concludes : conclude spec lanes firstError = .error fault := by
          simp [conclude, known, all, fast]
        have passed := h.passed
        rw [same] at passed complete
        rw [concludes, same]
        exact .lost passed complete all fast
    · have slow : spec.failFast = false := eq_false_of_ne_true fast
      have concludes : conclude spec lanes firstError = .ok (.arr (lanes.map Lane.slot)) := by
        cases firstError <;> simp [conclude, slow]
      rw [concludes, slots]
      exact .spent h.passed complete all (.inl slow)

/-- After an arrival the block goes on with its lanes, or its race is decided. -/
theorem raced_arrival {arrival : Arrival} {s' : RunState}
    (race : Race engine block s₀ (arrivals ++ [arrival]) running queue s')
    (lined : Lined arrivals running (before ++ after))
    (passed : ∀ arrival ∈ arrivals, arrival.Passes spec)
    (children : block.children =
      (before ++ .ended arrival.child arrival.slot :: after).map Lane.child ++ queue)
    (distinct : (block.children.map Node.id).Nodup) :
    (judge spec (firstFault arrivals) arrival.child arrival.outcome =
        .goOn arrival.slot (firstFault (arrivals ++ [arrival])) ∧
      Underway engine spec block s₀ (arrivals ++ [arrival]) running
        (before ++ .ended arrival.child arrival.slot :: after) queue
        (firstFault (arrivals ++ [arrival])) s') ∨
    ∃ outcome, judge spec (firstFault arrivals) arrival.child arrival.outcome = .stop outcome ∧
      Raced engine spec block s₀ (stop before after queue outcome s') := by
  have arrived := lined.arrive arrival
  have unfinished : before.filterMap Lane.unfinished? ++ after.filterMap Lane.unfinished? ++ queue =
      running.map Prod.fst ++ queue := by
    rw [← lined.runs, ← List.filterMap_append, unfinished_running]
  rcases judge_cases spec arrivals arrival with
    ⟨passes, judged⟩ | ⟨fault, failed, decisive, judged⟩ | ⟨value, succeeded, any, judged⟩
  · refine .inl ⟨judged, race, arrived, fun other member => ?_, rfl, children⟩
    rcases List.mem_append.1 member with member | member
    · exact passed other member
    · rw [List.mem_singleton.1 member]
      exact passes
  · refine .inr ⟨_, judged, ?_⟩
    obtain ⟨child, outcome⟩ := arrival
    cases failed
    rw [stop, unfinished]
    refine .decided race ?_
    rcases decisive with cancels | ⟨plain, all, fast⟩
    · exact .cancelled passed cancels
    · exact .failed passed plain all fast
  · refine .inr ⟨_, judged, ?_⟩
    obtain ⟨child, outcome⟩ := arrival
    cases succeeded
    have slots := arrived.slots_eq (children ▸ distinct)
    rw [← children, List.map_append, List.map_cons, List.append_assoc] at slots
    rw [stop, unfinished]
    refine .decided race ?_
    have won : Decides spec block.children (arrivals ++ [⟨child, .ok value⟩]) _ := .won passed any
    rw [← slots] at won
    simpa [Except.map, Lane.slot, Arrival.slot] using won

section

variable (distinct : (block.children.map Node.id).Nodup)

include distinct

/-- A block goes on with its race, or the race is decided. -/
theorem raced_carryOn (underway : Underway engine spec block s₀ arrivals running lanes queue
    firstError s) (within : running.length ≤ laneLimit spec block.children.length) :
    Raced engine spec block s₀
      (carryOn block spec (laneLimit spec block.children.length) lanes firstError s queue) := by
  cases queue with
  | nil =>
    rw [carryOn]
    split
    · exact .waits underway within
        ⟨fun opened => absurd opened Bool.false_ne_true, fun both => absurd rfl both.1⟩
    · next idle =>
      have idle : lanes.any Lane.isRunning = false := eq_false_of_ne_true idle
      have none : running = [] := by
        rw [← underway.lined.runs, ← List.length_eq_zero_iff, length_running, List.countP_eq_zero]
        exact fun lane member runs => List.any_eq_false.1 idle lane member runs
      have race := underway.race
      rw [none] at race
      exact .decided race (underway.decides distinct idle)
  | cons child rest =>
    have count : running.length = lanes.countP Lane.isRunning := by
      rw [← underway.lined.runs, length_running]
    rw [carryOn]
    split
    · next full =>
      refine .waits underway within ⟨fun opened => absurd opened Bool.false_ne_true, fun both => ?_⟩
      exact absurd both.2 (Nat.not_lt.2 (count ▸ full))
    · next free =>
      refine .waits { underway with race := underway.race.aside (.takeTicket block.ids s) } within
        ⟨fun _ => ⟨List.cons_ne_nil _ _, ?_⟩, fun _ => rfl⟩
      exact count ▸ Nat.lt_of_not_le free

/-- After the arrival of a child that stands between some lanes the race goes on, or it is decided.
-/
theorem raced_afterChild {outcome : Except Fault Json} {s' : RunState}
    (race : Race engine block s₀ (arrivals ++ [⟨child, outcome⟩]) running queue s')
    (lined : Lined arrivals running (before ++ after))
    (passed : ∀ arrival ∈ arrivals, arrival.Passes spec) (error : firstError = firstFault arrivals)
    (children : block.children = before.map Lane.child ++ child :: after.map Lane.child ++ queue)
    (within : running.length ≤ laneLimit spec block.children.length) :
    Raced engine spec block s₀
      (afterChild block spec (laneLimit spec block.children.length) queue firstError s' before child
        outcome after) := by
  have stands := children.trans
    (map_child_lanes before (.ended child (Arrival.slot ⟨child, outcome⟩)) after queue).symm
  unfold afterChild
  rcases raced_arrival race lined passed stands distinct with
    ⟨judged, next⟩ | ⟨outcome, judged, raced⟩
  · rw [error, judged]
    dsimp only
    rw [List.append_assoc, List.singleton_append]
    exact raced_carryOn distinct next within
  · rw [error, judged]
    exact raced

/-- When the turn of a child has come, it starts. -/
theorem raced_enter {rest : List Node} (underway : Underway engine spec block s₀ arrivals running
    lanes (child :: rest) firstError s)
    (free : running.length < laneLimit spec block.children.length) :
    Raced engine spec block s₀ (enter engine block spec (laneLimit spec block.children.length) lanes
      firstError s (child :: rest)) := by
  have around := children_of_front underway.children
  rw [enter]
  generalize started : start engine s child = p
  obtain ⟨s', progress⟩ := p
  cases progress with
  | waiting activity =>
    -- The child stands in the last lane from now on, so the block has the same children.
    have moved := around.trans (map_child_lanes lanes (.running child activity) [] rest).symm
    refine raced_carryOn distinct ⟨underway.race.departs started, underway.lined.depart child activity,
      underway.passed, underway.error, moved⟩ ?_
    rw [List.length_append, List.length_singleton]
    exact free
  | ended outcome =>
    have lined : Lined arrivals running (lanes ++ []) :=
      (List.append_nil lanes).symm ▸ underway.lined
    exact raced_afterChild distinct (underway.race.dashes started) lined underway.passed
      underway.error around (Nat.le_of_lt free)

/-- When the child in one lane goes on, so does the race. -/
theorem raced_goOnLanes {activity : Activity} {bell : Bell} {door : Option Nat}
    (underway : Underway engine spec block s₀ arrivals running
      (before ++ .running child activity :: after) queue firstError s)
    (within : running.length ≤ laneLimit spec block.children.length)
    (turn : door.isSome = true ↔ queue ≠ [] ∧ running.length < laneLimit spec block.children.length)
    (held : bell.ticket ∈ activity.tickets) :
    Raced engine spec block s₀
      (goOnLanes block spec (laneLimit spec block.children.length) queue door firstError
        (laneChange before child after (resume engine bell s activity))) := by
  have split := underway.children.trans (map_child_lanes ..)
  obtain ⟨runs, arrived⟩ := underway.lined
  rw [List.filterMap_append, List.filterMap_cons] at runs arrived
  have race := underway.race
  rw [← runs] at race
  generalize goes : resume engine bell s activity = p
  obtain ⟨s', progress⟩ := p
  cases progress with
  | waiting next =>
    have same : (before.filterMap Lane.running? ++
        (child, next) :: after.filterMap Lane.running?).length = running.length := by
      rw [← runs]
      simp [Lane.running?]
    have lined : Lined arrivals
        (before.filterMap Lane.running? ++ (child, next) :: after.filterMap Lane.running?)
        (before ++ .running child next :: after) := by
      refine ⟨?_, ?_⟩
      · rw [List.filterMap_append, List.filterMap_cons]
        rfl
      · rw [List.filterMap_append, List.filterMap_cons]
        exact arrived
    have stands := split.trans (map_child_lanes before (.running child next) after queue).symm
    exact .waits ⟨race.goesOn held goes, lined, underway.passed, underway.error, stands⟩
      (same ▸ within) (same ▸ turn)
  | ended outcome =>
    have lined : Lined arrivals
        (before.filterMap Lane.running? ++ after.filterMap Lane.running?) (before ++ after) := by
      refine ⟨List.filterMap_append, ?_⟩
      rw [List.filterMap_append]
      exact arrived
    refine raced_afterChild distinct (race.arrives held goes) lined underway.passed underway.error
      split (Nat.le_trans ?_ within)
    rw [← runs]
    simp [Lane.running?]

end

/-- What a block that waits has come to: its activity shows the lanes and the queue of its race, and
whether the turn of the next child has come. -/
theorem Raced.underway {activity : Activity}
    (h : Raced engine spec block s₀ (s, .waiting activity)) :
    ∃ lanes queue door firstError arrivals running,
      activity = .parallel block spec lanes queue door firstError ∧
      Underway engine spec block s₀ arrivals running lanes queue firstError s ∧
      running.length ≤ laneLimit spec block.children.length ∧
      (door.isSome = true ↔ queue ≠ [] ∧ running.length < laneLimit spec block.children.length) := by
  cases h with
  | waits underway within turn => exact ⟨_, _, _, _, _, _, rfl, underway, within, turn⟩

/-- When a block whose race is not decided goes on, so does the race. -/
theorem raced_goOn {bell : Bell} {door : Option Nat}
    (underway : Underway engine spec block s₀ arrivals running lanes queue firstError s)
    (within : running.length ≤ laneLimit spec block.children.length)
    (turn : door.isSome = true ↔ queue ≠ [] ∧ running.length < laneLimit spec block.children.length)
    (distinct : (block.children.map Node.id).Nodup)
    (own : (Activity.parallel block spec lanes queue door firstError).tickets.Nodup)
    (held : bell.ticket ∈ (Activity.parallel block spec lanes queue door firstError).tickets) :
    Raced engine spec block s₀
      (goOn engine bell s (.parallel block spec lanes queue door firstError)) := by
  have count : lanes.length + queue.length = block.children.length := by
    rw [underway.children, List.length_append, List.length_map]
  rcases door_or_lane own held with ⟨rfl, -⟩ |
    ⟨closed, before, child, activity, after, rfl, inside, hbefore, hafter⟩
  · obtain ⟨waiting, free⟩ := turn.1 rfl
    obtain ⟨child, rest, rfl⟩ := List.exists_cons_of_ne_nil waiting
    rw [goOn_door, count]
    exact raced_enter distinct underway free
  · rw [goOn_lane closed hbefore hafter, count]
    exact raced_goOnLanes distinct underway within turn inside

/-- An execution of a block is a race of its children, and its end is recorded. -/
theorem Execution.raced {wakes : Wakes} {p : RunState × Progress}
    (h : Execution engine wakes block s₀ p) (kind : block.kind = .parallel spec)
    (live : s₀.context.cancelled = false) (distinct : block.ids.Nodup) :
    ∃ q, Raced engine spec block s₀ q ∧ p = close block q := by
  have apart := Node.nodup_child_ids distinct
  induction h with
  | starts =>
    rw [start_eq, if_neg (ne_true_of_eq_false live)]
    refine ⟨_, ?_, rfl⟩
    simp only [work, kind]
    exact raced_carryOn apart ⟨.sets, ⟨rfl, .refl _⟩, nofun, rfl, rfl⟩ (Nat.zero_le _)
  | @goesOn s s' activity bell before aside held _ ih =>
    obtain ⟨q, raced, same⟩ := ih
    rw [eq_of_close_waiting same] at raced
    obtain ⟨lanes, queue, door, firstError, arrivals, running, rfl, underway, within, turn⟩ :=
      raced.underway
    have later := { underway with race := underway.race.aside aside }
    exact ⟨_, raced_goOn later within turn apart before.ticketed.1 held, resume_eq held⟩

end Run

end Stepwise

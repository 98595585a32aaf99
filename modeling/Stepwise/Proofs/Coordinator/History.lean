import Stepwise.Proofs.Coordinator.Logs
import Stepwise.Proofs.Coordinator.Rest
import Stepwise.Proofs.Coordinator.Telling

/-!
# Histories of coordinators

A history tells how a coordinator has come about, one thing after another (`Does`), with the logs
that were kept in the meantime. Moves by the same rules continue it, whatever it was
(`History.leads`), and so do the operations of a coordinator. The remarks of a history that goes by
the clock make a chronicle, and the items of any history make a ledger: what holds of all
chronicles, or of all ledgers, holds of every interleaving of such moves.
-/

namespace Stepwise

/-- What is noted when a session has come to something: its answer, with the record that is kept. -/
def Move.notes (repository : Repository) : Move → List Note
  | .stays _ => []
  | .ends response => [.answered response (repository.get? response.executionId)]

namespace Coordinator

/-- The response to a request for which there is no gate. -/
def shutOut (id : String) : Response :=
  .failure id .failed (.concurrency "max_concurrent_workflows is 0") .zero

/-- The response to a request with the id of a session. -/
def duplicate (id : String) : Response :=
  .failure id .failed (.concurrency ("execution '" ++ id ++ "' is already active")) .zero

/-- What a request does when it ends in a coordinator. -/
def parting (c : Coordinator) (workflowId : String) (response : Response) : List Deed :=
  closing workflowId response c.recordTime ((c.callbacks.find? response.executionId).getD [])
    c.world.now

theorem doers_parting {p : Deed → Bool}
    (only : ∀ deed, p deed = true → deed = .reach ∨ deed = .pass) (c : Coordinator) (handle : Nat)
    (workflowId : String) (response : Response) :
    doers p ((c.parting workflowId response).map (.of handle)) = [] := doers_closing only

/-- What is noted of a step of a session. What answers have asked to cancel in the meantime is noted
as well. -/
def remarks (c : Coordinator) (session : Session) (notes : List Note) (p : World × Move) :
    List Remark :=
  p.1.requests.map .cancel ++
    (notes ++ p.2.notes (c.settle session p).repository).map (.of session.handle)

/-- What is noted of a step is about its session only. -/
theorem notesOf_remarks_of_ne {c : Coordinator} {session : Session} {handle : Nat}
    (other : session.handle ≠ handle) (notes : List Note) (p : World × Move) :
    notesOf handle (c.remarks session notes p) = [] := by
  rw [remarks, notesOf_append, notesOf_map_cancel, notesOf_map_of_ne other]
  rfl

theorem notesOf_remarks (c : Coordinator) (session : Session) (notes : List Note)
    (p : World × Move) : notesOf session.handle (c.remarks session notes p) =
      notes ++ p.2.notes (c.settle session p).repository := by
  rw [remarks, notesOf_append, notesOf_map_cancel, notesOf_map_of]
  rfl

/-- One thing that a coordinator does, with its remarks and its items. If it goes by the clock the
notes tell what its sessions do. -/
inductive Does (rules : Rules) : Coordinator → List Remark → List Item → Coordinator → Prop
  | receive (c : Coordinator) : Does rules c [] [] c.received
  | line (c : Coordinator) (request : Request) : Does rules c [] [] (c.lined request)
  /-- Somebody leaves the line. -/
  | leave {c : Coordinator} {before after : List Ready} {next : Ready}
      (line : c.ready = before ++ next :: after) : Does rules c [] [] (c.standing (before ++ after))
  | pass {c : Coordinator} {time : Nat} (early : rules.clock → c.Early time) :
      Does rules c [] [] (c.asOf time)
  | cancel (c : Coordinator) (id : String) : Does rules c [.cancel id] [] (c.cancel id).2
  | register {c later : Coordinator} {id : String} {callback : Callback}
      (added : c.register id callback = .ok later) :
      Does rules c [] [.register id callback] later
  /-- A request arrives and ends, since there is no gate. -/
  | refuse {c : Coordinator} {handle : Nat} (fresh : handle ∉ c.numbers)
      (given : handle < c.handles) (request : Request) (shut : c.policy.maxConcurrent = 0) :
      Does rules c []
        ((.arrive (c.nameFor handle request) request ::
          c.parting request.workflowId (shutOut (c.nameFor handle request))).map (.of handle))
        (c.finish handle request.workflowId (shutOut (c.nameFor handle request)))
  /-- A request arrives and ends, since there is a session of its id. -/
  | repel {c : Coordinator} {handle : Nat} (fresh : handle ∉ c.numbers) (given : handle < c.handles)
      (request : Request) (gate : c.policy.maxConcurrent ≠ 0)
      (known : (c.find? (c.nameFor handle request)).isSome = true) :
      Does rules c []
        ([.arrive (c.nameFor handle request) request,
          .answer (duplicate (c.nameFor handle request))].map (.of handle))
        (c.addEnd handle (duplicate (c.nameFor handle request)))
  /-- A request arrives and waits at the gate. -/
  | queue {c : Coordinator} {handle : Nat} (fresh : handle ∉ c.numbers) (given : handle < c.handles)
      (request : Request) (gate : c.policy.maxConcurrent ≠ 0)
      (other : ∀ session ∈ c.sessions, session.id ≠ c.nameFor handle request) (full : c.free = 0) :
      Does rules c
        [.of handle (.taken (c.newcomer handle (c.nameFor handle request) request .queued))]
        ([.arrive (c.nameFor handle request) request, .reach].map (.of handle))
        { c with
          sessions := c.sessions ++ [c.newcomer handle (c.nameFor handle request) request .queued]
          queue := c.queue ++ [handle] }
  /-- A request arrives and passes the gate. -/
  | enter {c : Coordinator} {handle : Nat} (fresh : handle ∉ c.numbers) (given : handle < c.handles)
      (request : Request) (gate : c.policy.maxConcurrent ≠ 0)
      (other : ∀ session ∈ c.sessions, session.id ≠ c.nameFor handle request) (room : c.free ≠ 0) :
      Does rules c
        [.of handle (.taken (c.newcomer handle (c.nameFor handle request) request .admitted))]
        ([.arrive (c.nameFor handle request) request, .reach, .pass].map (.of handle))
        { c with
          sessions :=
            c.sessions ++ [c.newcomer handle (c.nameFor handle request) request .admitted]
          free := c.free - 1 }
  /-- A session takes a step and goes on. -/
  | goOn {c : Coordinator} {session next : Session} (member : session ∈ c.sessions) {deaf : Bool}
      {world : World} (steps : c.Steps session deaf (world, .stays next)) {events : List Event}
      (speaks : session.Speaks c.world events (world, .stays next)) {notes : List Note}
      (tells : rules.clock → c.Tells session notes (world, .stays next)) :
      Does rules c (c.remarks session notes (world, .stays next))
        ((events.map .tell).map (.of session.handle))
        (c.settle session (world, .stays next))
  /-- A session takes a step and ends. Whoever has waited longest at the gate is given its place. -/
  | conclude {c : Coordinator} {session : Session} (member : session ∈ c.sessions) {deaf : Bool}
      {world : World} {response : Response}
      (steps : c.Steps session deaf (world, .ends response)) {events : List Event}
      (speaks : session.Speaks c.world events (world, .ends response)) {notes : List Note}
      (tells : rules.clock → c.Tells session notes (world, .ends response)) :
      Does rules c (c.remarks session notes (world, .ends response))
        ((events.map .tell).map (.of session.handle) ++
          c.queue.head?.toList.map (fun handle => .of handle .pass) ++
          (parting { c with world := world } session.request.workflowId response).map
            (.of session.handle))
        (c.settle session (world, .ends response))

/-- How a coordinator has come about, with its logs. -/
inductive History (rules : Rules) (policy : Policy) (executor : Executor) :
    Coordinator → List Remark → List Item → Prop
  | make (ids : Nat → String) : History rules policy executor (make policy executor ids) [] []
  | does {c later : Coordinator} {remarks noted : List Remark} {items done : List Item}
      (before : History rules policy executor c remarks items)
      (does : Does rules c noted done later) :
      History rules policy executor later (remarks ++ noted) (items ++ done)

/-- A coordinator that went by the clock, with all that was noted. -/
def Chronicle (policy : Policy) (executor : Executor) (c : Coordinator) (log : List Remark) :
    Prop :=
  ∃ items, History .timely policy executor c log items

/-- A coordinator that went in any way, with all that its requests did. -/
def Ledger (policy : Policy) (executor : Executor) (c : Coordinator) (log : List Item) : Prop :=
  ∃ remarks, History .any policy executor c remarks log

variable {rules : Rules} {manner : Manner} {policy : Policy} {executor : Executor}
  {c middle later : Coordinator} {session : Session} {handle : Nat} {remarks noted : List Remark}
  {items done : List Item}

theorem Does.goes (does : Does rules c noted done later) (sound : c.Sound) :
    Goes .deaf c later := by
  cases does with
  | receive => exact goes_received sound
  | line request => exact goes_lined sound request
  | leave line => exact goes_standing sound line
  | pass => exact .of_tended (.of_eq rfl id rfl rfl rfl rfl rfl rfl) sound
  | register added =>
    cases register_ok added
    exact .of_tended (.of_eq rfl id rfl rfl rfl rfl rfl rfl) sound
  | cancel id => exact .of_tended (.cancel sound id) sound
  | refuse fresh given => exact goes_refuse sound fresh given rfl rfl rfl rfl rfl rfl rfl rfl
  | repel fresh given => exact goes_refuse sound fresh given rfl rfl rfl rfl rfl rfl rfl rfl
  | queue fresh given request gate other full =>
    exact goes_queue sound fresh given other request
  | enter fresh given request gate other room =>
    exact goes_enter sound fresh given other request
  | goOn member steps | conclude member steps =>
    exact goes_settle sound member (steps.goes_deaf (sound.sessions _ member))

theorem History.sound (h : History rules policy executor c remarks items) : c.Sound := by
  induction h with
  | make ids => exact sound_make policy executor ids
  | does _ does ih => exact (does.goes ih).sound

/-! ## Moves continue histories -/

/-- A history goes on to another coordinator. -/
def Extends (rules : Rules) (policy : Policy) (executor : Executor) (remarks : List Remark)
    (items : List Item) (later : Coordinator) : Prop :=
  ∃ noted done, History rules policy executor later (remarks ++ noted) (items ++ done)

theorem History.extends (h : History rules policy executor c remarks items) :
    Extends rules policy executor remarks items c :=
  ⟨[], [], by rwa [List.append_nil, List.append_nil]⟩

theorem History.one (h : History rules policy executor c remarks items)
    (does : Does rules c noted done later) : Extends rules policy executor remarks items later :=
  ⟨noted, done, h.does does⟩

/-- Nothing is logged. -/
theorem History.none (h : History rules policy executor c remarks items)
    (does : Does rules c [] [] later) : History rules policy executor later remarks items := by
  have := h.does does
  rwa [List.append_nil, List.append_nil] at this

theorem History.step (h : History rules policy executor c remarks items)
    (member : session ∈ c.sessions) {deaf : Bool} {p : World × Move}
    (steps : c.Steps session deaf p) {notes : List Note}
    (tells : rules.clock → c.Tells session notes p) :
    Extends rules policy executor remarks items (c.settle session p) := by
  obtain ⟨events, speaks⟩ := steps.speaks (h.sound.sessions session member)
  obtain ⟨world, move⟩ := p
  cases move with
  | stays next => exact h.one (.goOn member steps speaks tells)
  | ends response => exact h.one (.conclude member steps speaks tells)

theorem History.stimulate (h : History rules policy executor c remarks items)
    (member : session ∈ c.sessions) {stimulus : Run.Stimulus}
    (timely : rules.clock → c.Timely session stimulus) :
    Extends rules policy executor remarks items (c.stimulate session stimulus) := by
  by_cases clock : rules.clock
  · rcases exists_tells (h.sound.sessions session member) (timely clock) with
      same | ⟨notes, p, steps, tells, same⟩
    · rw [same]
      exact h.extends
    · rw [same]
      exact h.step member steps fun _ => tells
  · rcases c.stimulate_cases session stimulus with ⟨-, same⟩ | ⟨p, steps, same⟩
    · rw [same]
      exact h.extends
    · have tells : rules.clock → c.Tells session [] p := fun timed => absurd timed clock
      rw [same]
      exact h.step member steps tells

/-- A request is taken if there is a gate at all and no session has its id. -/
theorem History.takes (h : History rules policy executor c remarks items)
    (fresh : handle ∉ c.numbers) (given : handle < c.handles) (request : Request)
    (gate : c.policy.maxConcurrent ≠ 0)
    (unknown : ¬(c.find? (c.nameFor handle request)).isSome = true) :
    ∃ taken noted done, taken.request = request ∧ taken.id = c.nameFor handle request ∧
      .taken taken ∈ notesOf handle noted ∧
      History rules policy executor (c.accept handle request) (remarks ++ noted) (items ++ done) := by
  have other := ne_of_find?_none unknown
  have own (taken : Session) : notesOf handle [.of handle (.taken taken)] = [.taken taken] :=
    notesOf_map_of handle [.taken taken]
  rw [accept_eq c handle request, if_neg gate, if_neg unknown]
  split
  · next full =>
    refine ⟨c.newcomer handle _ request .queued, _, _, rfl, rfl, ?_,
      h.does (.queue fresh given request gate other full)⟩
    rw [own]
    exact List.mem_cons_self
  · next room =>
    let entered : Session := c.newcomer handle (c.nameFor handle request) request .admitted
    have through := h.does (.enter fresh given request gate other room)
    obtain ⟨notes, tells⟩ := exists_tells_proceed
      { c with sessions := c.sessions ++ [entered], free := c.free - 1 } entered rfl
    obtain ⟨noted, done, proceeded⟩ := through.step (List.mem_append_right _ List.mem_cons_self)
      (.begin rfl false) fun _ => tells
    rw [List.append_assoc, List.append_assoc] at proceeded
    refine ⟨entered, _, _, rfl, rfl, ?_, proceeded⟩
    rw [notesOf_append, own]
    exact List.mem_append_left _ List.mem_cons_self

theorem History.accept (h : History rules policy executor c remarks items)
    (fresh : handle ∉ c.numbers) (given : handle < c.handles) (request : Request) :
    Extends rules policy executor remarks items (c.accept handle request) := by
  by_cases shut : c.policy.maxConcurrent = 0
  · rw [accept_eq c handle request, if_pos shut]
    exact h.one (.refuse fresh given request shut)
  · by_cases known : (c.find? (c.nameFor handle request)).isSome = true
    · rw [accept_eq c handle request, if_neg shut, if_pos known]
      exact h.one (.repel fresh given request shut known)
    · obtain ⟨taken, noted, done, -, -, -, accepted⟩ := h.takes fresh given request shut known
      exact ⟨noted, done, accepted⟩

/-- Whatever moves a coordinator makes by the rules, its history goes on. -/
theorem History.moves (h : History rules policy executor c remarks items)
    (move : Moves rules c later) : Extends rules policy executor remarks items later := by
  cases move with
  | arrive request =>
    have fresh : c.handles ∉ c.received.numbers := handles_notMem h.sound
    have given : c.handles < c.received.handles := Nat.lt_succ_self _
    exact (h.none (.receive c)).accept fresh given request
  | line request => exact h.one (.line c request)
  | @turn before after next line =>
    have left := h.none (.leave line)
    cases next with
    | session handle =>
      rw [turn]
      split
      · next session found =>
        refine left.stimulate (List.mem_of_find?_eq_some found) fun _ =>
          ⟨fun _ => Run.Stimulus.noConfusion, ?_⟩
        exact fun _ _ _ _ => .inl rfl
      · exact left.extends
    | arrival handle request =>
      obtain ⟨fresh, given⟩ := fresh_of_line h.sound line
      exact left.accept fresh given request
  | stimulate member _ timely => exact h.stimulate member timely
  | cancel id => exact h.one (.cancel c id)
  | register added => exact h.one (.register added)
  | pass early => exact h.one (.pass early)

/-- Every interleaving continues any history that was there before. -/
theorem History.leads (h : History rules policy executor c remarks items)
    (leads : Leads rules c later) : Extends rules policy executor remarks items later := by
  induction leads with
  | refl => exact h.extends
  | tail _ move ih =>
    obtain ⟨noted, done, before⟩ := ih
    obtain ⟨more, rest, after⟩ := before.moves move
    rw [List.append_assoc, List.append_assoc] at after
    exact ⟨_, _, after⟩

/-! ## Chronicles and ledgers -/

theorem Chronicle.sound {log : List Remark} (h : Chronicle policy executor c log) : c.Sound := by
  obtain ⟨items, history⟩ := h
  exact history.sound

theorem Chronicle.leads {log : List Remark} (h : Chronicle policy executor c log)
    (leads : Leads .timely c later) : ∃ more, Chronicle policy executor later (log ++ more) := by
  obtain ⟨items, history⟩ := h
  obtain ⟨more, done, history⟩ := history.leads leads
  exact ⟨more, _, history⟩

theorem chronicle_make (policy : Policy) (executor : Executor) (ids : Nat → String) :
    Chronicle policy executor (make policy executor ids) [] := ⟨[], .make ids⟩

theorem Chronicle.does {log noted : List Remark} (h : Chronicle policy executor c log)
    (does : Does .timely c noted done later) : Chronicle policy executor later (log ++ noted) := by
  obtain ⟨items, history⟩ := h
  exact ⟨_, history.does does⟩

/-- A session takes a step by the clock. -/
theorem Chronicle.step {log : List Remark} (chronicle : Chronicle policy executor c log)
    (member : session ∈ c.sessions) {deaf : Bool} {p : World × Move}
    (steps : c.Steps session deaf p) {notes : List Note} (tells : c.Tells session notes p) :
    ∃ more, Chronicle policy executor (c.settle session p) (log ++ more) ∧
      notesOf session.handle more = notes ++ p.2.notes (c.settle session p).repository := by
  obtain ⟨events, speaks⟩ := steps.speaks (chronicle.sound.sessions session member)
  refine ⟨c.remarks session notes p, ?_, notesOf_remarks c session notes p⟩
  obtain ⟨world, move⟩ := p
  cases move with
  | stays next => exact chronicle.does (.goOn member steps speaks fun _ => tells)
  | ends response => exact chronicle.does (.conclude member steps speaks fun _ => tells)

/-- Chronicles are kept of whatever goes by the clock, and so of all that is done with a
coordinator. A request that is accepted is noted as taken, if there is a gate at all and no session
has its id. -/
structure Recording (policy : Policy) (executor : Executor) : Prop where
  make : ∀ ids, Chronicle policy executor (make policy executor ids) []
  operates : ∀ c log, Chronicle policy executor c log → c.Operates .timely
  leads : ∀ c log later, Chronicle policy executor c log → Leads .timely c later →
    ∃ more, Chronicle policy executor later (log ++ more)
  takes : ∀ c log handle request, Chronicle policy executor c log → handle ∉ c.numbers →
    handle < c.handles → c.policy.maxConcurrent ≠ 0 →
    (c.find? (c.nameFor handle request)).isSome = false →
    ∃ taken more, taken.request = request ∧ taken.id = c.nameFor handle request ∧
      .taken taken ∈ notesOf handle more ∧
      Chronicle policy executor (c.accept handle request) (log ++ more)

theorem recording (policy : Policy) (executor : Executor) : Recording policy executor where
  make ids := chronicle_make policy executor ids
  operates c log chronicle := operates chronicle.sound
  leads c log later chronicle leads := chronicle.leads leads
  takes c log handle request chronicle fresh given gate unknown := by
    obtain ⟨items, history⟩ := chronicle
    obtain ⟨taken, more, done, same, own, noted, accepted⟩ :=
      history.takes fresh given request gate (ne_true_of_eq_false unknown)
    exact ⟨taken, more, same, own, noted, _, accepted⟩

/-- What holds in the beginning and is kept by whatever a coordinator does holds of every ledger. -/
theorem Ledger.induction {P : Coordinator → List Item → Prop}
    (make : ∀ ids, P (make policy executor ids) [])
    (does : ∀ {c later : Coordinator} {noted : List Remark} {log more : List Item},
      Ledger policy executor c log → P c log → Does .any c noted more later →
      P later (log ++ more))
    {log : List Item} (h : Ledger policy executor c log) : P c log := by
  obtain ⟨remarks, history⟩ := h
  induction history with
  | make ids => exact make ids
  | does before next ih => exact does ⟨_, before⟩ ih next

variable {log more : List Item}

theorem ledger_make (policy : Policy) (executor : Executor) (ids : Nat → String) :
    Ledger policy executor (make policy executor ids) [] := ⟨[], .make ids⟩

theorem Ledger.does (h : Ledger policy executor c log) (does : Does .any c noted more later) :
    Ledger policy executor later (log ++ more) := by
  obtain ⟨remarks, history⟩ := h
  exact ⟨_, history.does does⟩

/-- Nothing is logged. -/
theorem Ledger.none (h : Ledger policy executor c log) (does : Does .any c noted [] later) :
    Ledger policy executor later log := by
  have := h.does does
  rwa [List.append_nil] at this

theorem Ledger.sound (h : Ledger policy executor c log) : c.Sound := by
  obtain ⟨remarks, history⟩ := h
  exact history.sound

theorem Ledger.leads (h : Ledger policy executor c log) (leads : Leads .any c later) :
    ∃ more, Ledger policy executor later (log ++ more) := by
  obtain ⟨remarks, history⟩ := h
  obtain ⟨noted, more, history⟩ := history.leads leads
  exact ⟨more, _, history⟩

/-- Ledgers are kept of every interleaving, and so of all that is done with a coordinator. A request
that was given a handle stands in line, has a session or has an end. -/
structure Bookkeeping (policy : Policy) (executor : Executor) : Prop where
  ledger : ∀ ids c, Leads .any (make policy executor ids) c → ∃ log, Ledger policy executor c log
  operates : ∀ ids c, Leads .any (make policy executor ids) c → c.Operates .any
  complete : ∀ ids c, Leads .any (make policy executor ids) c → c.Complete

theorem bookkeeping (policy : Policy) (executor : Executor) : Bookkeeping policy executor where
  ledger ids _ reached := (ledger_make policy executor ids).leads reached
  operates ids _ reached := operates (Leads.sound reached (sound_make policy executor ids))
  complete ids _ reached := (Leads.atRest reached (atRest_make policy executor ids)).complete

end Coordinator

end Stepwise

import Stepwise.Proofs.Coordinator.Retries
import Stepwise.Proofs.Coordinator.Settling

/-!
# Where answers come from

Every answer to a request that was taken is what its session came to in one step, at some earlier
point of the chronicle (`Chronicle.exists_step`). So what is shown of the steps of sessions is shown
of all answers.
-/

namespace Stepwise

/-- The notes of a session begin with the request that was taken. -/
theorem Told.taken_mem {engine : Engine} {policy : Policy} {taken session : Session} {world : World}
    {phase : SessionPhase} {notes : List Note}
    (h : Told engine policy taken world session phase notes) : .taken taken ∈ notes := by
  cases h <;> exact List.mem_cons_self

namespace Coordinator

variable {policy : Policy} {executor : Executor} {c later : Coordinator} {log more : List Remark}
  {items : List Item} {taken other session : Session} {handle : Nat} {e : End}

/-- Nothing is noted of a handle that was not given to a request. -/
theorem Chronicle.silent (chronicle : Chronicle policy executor c log)
    (fresh : handle ∉ c.numbers) :
    notesOf handle log = [] := by
  refine chronicle.agrees.unknown handle (fun known => fresh ?_) fun ended => fresh ?_
  · exact List.mem_append_left _ (List.mem_append_left _ known)
  · exact List.mem_append_right _ ended

/-- A request is taken once. -/
theorem Chronicle.taken_unique (chronicle : Chronicle policy executor c log)
    (first : .taken taken ∈ notesOf handle log) (second : .taken other ∈ notesOf handle log) :
    taken = other := by
  rcases chronicle.cases_of_taken first with
    ⟨session, -, -, -, told⟩ | ⟨e, -, -, before, record, noted, closed⟩
  · exact (told.eq_of_taken second).symm
  · rw [noted] at second
    have second := (List.mem_append.1 second).resolve_right (by simp)
    exact (closed.eq_of_taken second).symm

/-- An end that a coordinator has come to was there before, or was that of a request that was not
taken, or is what a session has come to in a step. -/
theorem Does.origin (does : Does .timely c more items later) (sound : c.Sound)
    (member : e ∈ later.ends) :
    (e ∈ c.ends ∧ notesOf e.handle more = []) ∨ (e.handle ∉ c.numbers ∧ more = []) ∨
      ∃ session ∈ c.sessions, session.handle = e.handle ∧ ∃ notes record deaf world,
        notesOf e.handle more = notes ++ [.answered e.response record] ∧
          c.Steps session deaf (world, .ends e.response) ∧
          c.Tells session notes (world, .ends e.response) := by
  have among {e : End} (member : e ∈ c.ends) : e.handle ∈ c.numbers :=
    List.mem_append_right _ (List.mem_map_of_mem member)
  cases does with
  | receive | line | leave | pass => exact .inl ⟨member, rfl⟩
  | register added =>
    cases register_ok added
    exact .inl ⟨member, rfl⟩
  | cancel id =>
    rw [(Kept.cancel sound id).ends] at member
    exact .inl ⟨member, rfl⟩
  | refuse fresh | repel fresh =>
    rcases List.mem_append.1 member with member | member
    · exact .inl ⟨member, rfl⟩
    · cases List.mem_singleton.1 member
      exact .inr (.inl ⟨fresh, rfl⟩)
  | queue fresh | enter fresh =>
    refine .inl ⟨member, notesOf_map_of_ne (fun same => fresh ?_) [.taken _]⟩
    rw [same]
    exact among member
  | goOn inside steps =>
    have goes := steps.goes_deaf (sound.sessions _ inside)
    rw [(kept_stays sound inside goes).ends] at member
    exact .inl ⟨member, notesOf_remarks_of_ne (sound.handle_ne_end inside member) _ _⟩
  | @conclude session inside deaf world response steps _ _ notes tells =>
    have goes := steps.goes_deaf (sound.sessions session inside)
    rw [(parted_ends sound inside goes).ends] at member
    rcases List.mem_append.1 member with member | member
    · exact .inl ⟨member, notesOf_remarks_of_ne (sound.handle_ne_end inside member) _ _⟩
    · cases List.mem_singleton.1 member
      exact .inr (.inr ⟨session, inside, rfl, notes, _, deaf, world, notesOf_remarks .., steps,
        tells trivial⟩)

/-- A session has come to the answer of a request in a step, at some point of a chronicle. -/
structure Origin (policy : Policy) (executor : Executor) (log : List Remark) (taken : Session)
    (e : End) (earlier : Coordinator) (session : Session) (world : World) : Prop where
  follows : earlier.policy = policy
  dead : session.cancelled = true → .cancel taken.id ∈ log
  request : taken.request = session.request
  steps : ∃ deaf, earlier.Steps session deaf (world, .ends e.response)
  noted : ∃ before notes record,
    notesOf e.handle log = before ++ (notes ++ [.answered e.response record]) ∧
    Told ⟨executor, policy.defaults⟩ policy taken earlier.world session session.phase before ∧
    earlier.Tells session notes (world, .ends e.response)

/-- The answer to a request that was taken is what its session came to in a step. -/
theorem Chronicle.exists_step (chronicle : Chronicle policy executor c log) (member : e ∈ c.ends)
    (accepted : .taken taken ∈ notesOf e.handle log) :
    ∃ earlier session world, Origin policy executor log taken e earlier session world := by
  obtain ⟨items, history⟩ := chronicle
  induction history with
  | make => exact absurd member List.not_mem_nil
  | @does c later log more items done history does ih =>
    have before : Chronicle policy executor c log := ⟨items, history⟩
    have all : Chronicle policy executor later (log ++ more) := before.does does
    rcases does.origin before.sound member with ⟨old, silent⟩ | ⟨fresh, rfl⟩ |
      ⟨session, inside, own, notes, record, deaf, world, adds, steps, tells⟩
    · rw [notesOf_append, silent, List.append_nil] at accepted
      obtain ⟨earlier, session, world, origin⟩ := ih old accepted
      refine ⟨earlier, session, world, origin.follows,
        fun dead => List.mem_append_left _ (origin.dead dead), origin.request, origin.steps, ?_⟩
      rw [notesOf_append, silent, List.append_nil]
      exact origin.noted
    · rw [List.append_nil, before.silent fresh] at accepted
      cases accepted
    · obtain ⟨dead, other, id, request, told⟩ := before.agrees.sessions session inside
      rw [own] at told
      have noted : .taken other ∈ notesOf e.handle (log ++ more) := by
        rw [notesOf_append]
        exact List.mem_append_left _ told.taken_mem
      obtain rfl := all.taken_unique accepted noted
      refine ⟨c, session, world, before.agrees.follows, fun struck => ?_, request, ⟨deaf, steps⟩,
        _, notes, record, ?_, told, tells⟩
      · rw [id]
        exact List.mem_append_left _ (dead struck)
      · rw [notesOf_append, adds]

end Coordinator

end Stepwise

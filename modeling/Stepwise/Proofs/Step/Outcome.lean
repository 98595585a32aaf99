import Stepwise.Proofs.Step.Draft
import Stepwise.Proofs.Step.Reading

/-!
# A tree or faults

Drafting a tree in one go keeps to what is read first and built afterwards: every part comes to what
is read and built from the ids in use then, and puts on record just the faults that are found
(`Follows`, `follows_draft`). So no part gives up in silence or goes on past a fault
(`Follows.accounts`), and the whole comes to a tree or to faults (`tree_or_faults`).
-/

namespace Stepwise.Step

/-! ## Parts that keep to what is read -/

/-- What a part comes to: something that is read and built, with nothing new on record, or faults
that are found, on record now. -/
inductive Comes {β : Type} (record : List Fault) : Reading (β × Naming) → Option β × Draft → Prop
  | right {b : β} {naming : Naming} : Comes record (.ok (b, naming)) (some b, ⟨naming, record⟩)
  | wrong {found : Faults} {naming : Naming} :
      Comes record (.error found) (none, ⟨naming, record ++ found.toList⟩)

theorem Comes.eq_of_ok {β : Type} {record : List Fault} {made : β × Naming} {run : Option β × Draft}
    (h : Comes record (.ok made) run) : run = (some made.1, ⟨made.2, record⟩) := by
  cases h
  rfl

theorem Comes.exists_of_error {β : Type} {record : List Fault} {found : Faults}
    {run : Option β × Draft} (h : Comes record (.error found) run) :
    ∃ naming, run = (none, ⟨naming, record ++ found.toList⟩) := by
  cases h
  exact ⟨_, rfl⟩

/-- A part of drafting comes to what is read and built from the ids that are in use. -/
def Follows {β : Type} (part : Drafting β) (reading : Naming → Reading (β × Naming)) : Prop :=
  ∀ draft : Draft, Comes draft.faults (reading draft.naming) (part draft)

/-- A part of drafting gives up exactly if it adds to the record, off which it never takes. -/
def Accounts {β : Type} (part : Drafting β) : Prop :=
  ∀ draft : Draft, ∃ found, (part draft).2.faults = draft.faults ++ found ∧
    ((part draft).1 = none ↔ found ≠ [])

namespace Follows

variable {α β : Type} {part : Drafting β} {reading other : Naming → Reading (β × Naming)}

theorem accounts (h : Follows part reading) : Accounts part := by
  intro draft
  have comes := h draft
  generalize part draft = run, reading draft.naming = read at comes ⊢
  cases comes with
  | right => exact ⟨[], (List.append_nil _).symm, by simp⟩
  | wrong => exact ⟨_, rfl, by simp [Faults.toList]⟩

theorem of_eq (h : Follows part reading) (same : ∀ naming, reading naming = other naming) :
    Follows part other := by
  intro draft
  rw [← same]
  exact h draft

theorem pure (b : β) : Follows (Pure.pure b) fun naming => .ok (b, naming) :=
  fun _ => .right

theorem take (reading : Reading β) :
    Follows (Drafting.take reading) fun naming => reading.map (·, naming) := by
  intro draft
  cases reading with
  | ok b => exact .right
  | error found => exact .wrong

theorem name (give : Naming → String × Naming) :
    Follows (Drafting.name give) fun naming => .ok (give naming) :=
  fun _ => .right

theorem bind {first : Drafting α} {next : α → Drafting β} {front : Naming → Reading (α × Naming)}
    {back : α → Naming → Reading (β × Naming)} (hfirst : Follows first front)
    (hnext : ∀ a, Follows (next a) (back a)) :
    Follows (first >>= next) fun naming => front naming >>= fun (a, naming) => back a naming := by
  intro draft
  have comes := hfirst draft
  simp only [Bind.bind]
  generalize first draft = run, front draft.naming = read at comes ⊢
  cases comes with
  | @right a naming => exact hnext a ⟨naming, draft.faults⟩
  | wrong => exact .wrong

/-- What is read first and found right is drafted with what comes after it. -/
theorem after {γ : Type} {first : Reading α} {next : α → Drafting β} {rest : α → Reading γ}
    {finish : Naming → γ → β × Naming}
    (h : ∀ a, first = .ok a → Follows (next a) fun naming => (rest a).map (finish naming)) :
    Follows (Drafting.take first >>= next) fun naming => (first >>= rest).map (finish naming) := by
  intro draft
  cases first with
  | ok a => exact h a rfl draft
  | error found => exact .wrong

/-- Of a list, what stands in front and what follows are both read, whatever comes of the other. -/
theorem cons {head : Drafting Node} {tail : Drafting (List Node)} {step : Reading Step}
    {steps : Reading (List Step)} (hhead : Follows head fun naming => step.map (build naming))
    (htail : Follows tail fun naming => steps.map (buildAll naming)) :
    Follows (head.cons tail) fun naming => (step.cons steps).map (buildAll naming) := by
  intro draft
  cases step with
  | ok step =>
    have first := (hhead draft).eq_of_ok
    have second := htail ⟨(build draft.naming step).2, draft.faults⟩
    simp only [Drafting.cons, first]
    generalize tail _ = run at second ⊢
    cases steps with
    | ok steps =>
      rw [second.eq_of_ok]
      exact .right
    | error found =>
      obtain ⟨naming, rfl⟩ := second.exists_of_error
      exact .wrong
  | error found =>
    obtain ⟨naming, first⟩ := (hhead draft).exists_of_error
    have second := htail ⟨naming, draft.faults ++ found.toList⟩
    simp only [Drafting.cons, first]
    generalize tail _ = run at second ⊢
    cases steps with
    | ok steps =>
      rw [second.eq_of_ok]
      exact .wrong
    | error more =>
      obtain ⟨naming, rfl⟩ := second.exists_of_error
      have both : (found.append more).toList = found.toList ++ more.toList := rfl
      simp only [List.append_assoc, ← both]
      exact .wrong

end Follows

/-! ## Branches -/

/-- The node for steps that stand where one node is wanted, with a sequence around several. -/
def gather (naming : Naming) : List Step → Node × Naming
  | [step] => build naming step
  | steps =>
    let (id, naming) := naming.forBlock "sequence"
    let (children, naming) := buildAll naming steps
    (.make id .sequence children, naming)

/-- The node of a branch, if it has any steps. -/
def gatherAny (naming : Naming) : List Step → Option Node × Naming
  | [] => (none, naming)
  | steps =>
    let (node, naming) := gather naming steps
    (some node, naming)

theorem tree_eq_gather (naming : Naming) (first : Step) (rest : List Step) :
    tree naming first rest = (gather naming (first :: rest)).1 := by
  cases rest <;> rfl

theorem gatherAny_of_ne_nil (naming : Naming) {steps : List Step} (h : steps ≠ []) :
    gatherAny naming steps = (some (gather naming steps).1, (gather naming steps).2) := by
  cases steps with
  | nil => exact absurd rfl h
  | cons step rest => rfl

/-- The steps of a branch become one node, or none if there are no steps. -/
theorem wrap_eq (naming : Naming) (steps : List Step) :
    wrap (naming.wrapperId steps).1 (buildAll (naming.wrapperId steps).2 steps).1 =
      (gatherAny naming steps).1.toList := by
  match steps with
  | [] => rfl
  | [_] => rfl
  | _ :: _ :: _ => rfl

theorem naming_eq (naming : Naming) (steps : List Step) :
    (buildAll (naming.wrapperId steps).2 steps).2 = (gatherAny naming steps).2 := by
  match steps with
  | [] => rfl
  | [_] => rfl
  | _ :: _ :: _ => rfl

theorem build_condition (naming : Naming) (head : StepHead) (text : String) {yes : List Step}
    (hyes : yes ≠ []) (no : List Step) :
    build naming (.condition head text yes no) =
      let (id, naming) := naming.blockId head.id "condition"
      let (yes, naming) := gather naming yes
      let (no, naming) := gatherAny naming no
      (⟨id, .condition text, yes.withBranch .onTrue :: no.toList.map (·.withBranch .onFalse), none,
        head.tags⟩, naming) := by
  rw [build]
  simp only [wrap_eq, naming_eq, gatherAny_of_ne_nil _ hyes]
  rfl

/-! ## Steps that are drafted -/

/-- A value is drafted as it is read and built. -/
def Drafted (json : Json) : Prop :=
  ∀ path, Follows (draft path json) fun naming => (read path json).map (build naming)

/-- So are all smaller values. -/
def DraftedBelow (size : Nat) : Prop := ∀ item, sizeOf item < size → Drafted item

/-- What is refused is not built, in whatever way. -/
theorem Follows.refuse {α β : Type} (path reason : String) (finish : Naming → α → β × Naming) :
    Follows (Drafting.take (refuse path reason)) fun naming =>
      (Step.refuse path reason).map (finish naming) :=
  (Follows.take _).of_eq fun _ => rfl

section

variable {members inner : Table Json} {json : Json} {items : List Json} {path name : String}

theorem DraftedBelow.of_find? (each : DraftedBelow (sizeOf members))
    (found : Table.find? members name = some json) : DraftedBelow (sizeOf json + 1) := by
  intro item smaller
  have := sizeOf_find? found
  exact each item (by omega)

theorem DraftedBelow.of_mem (each : DraftedBelow (sizeOf (Json.arr items) + 1)) :
    ∀ item ∈ items, Drafted item := by
  intro item member
  have := List.sizeOf_lt_of_mem member
  refine each item ?_
  simp only [Json.arr.sizeOf_spec]
  omega

theorem follows_draftAll (each : ∀ item ∈ items, Drafted item) (i : Nat) :
    Follows (draftAll path i items) fun naming =>
      (readAll path i items).map (buildAll naming) := by
  induction items generalizing i with
  | nil =>
    rw [draftAll, readAll]
    exact .pure []
  | cons item rest ih =>
    rw [List.forall_mem_cons] at each
    rw [draftAll, readAll]
    exact (each.1 _).cons (ih each.2 _)

/-- A single step stands for itself where one node is wanted. -/
theorem follows_single {item : Json} (drafted : Drafted item) :
    Follows (draft (itemPath path 0) item) fun naming =>
      (readAll path 0 [item]).map (gather naming) := by
  refine (drafted _).of_eq fun naming => ?_
  rw [readAll, readAll]
  cases read (itemPath path 0) item <;> rfl

/-- Several steps where one node is wanted get a sequence around them. -/
theorem follows_several (each : ∀ item ∈ items, Drafted item) (several : items.length ≠ 1) :
    Follows (do
        let id ← Drafting.name (·.forBlock "sequence")
        let children ← draftAll path 0 items
        return .make id .sequence children)
      fun naming => (readAll path 0 items).map (gather naming) := by
  refine ((Follows.name _).bind fun id => (follows_draftAll each 0).bind fun children =>
    .pure _).of_eq fun naming => ?_
  cases h : readAll path 0 items with
  | error found => rfl
  | ok steps =>
    have same := length_readAll h
    match steps with
    | [] => rfl
    | [_] => exact absurd same.symm several
    | _ :: _ :: _ => rfl

theorem follows_draftNested (each : DraftedBelow (sizeOf json + 1)) :
    Follows (draftNested path json) fun naming =>
      (readNested path json).map (buildAll naming) := by
  cases json with
  | arr items =>
    rw [draftNested, readNested]
    exact follows_draftAll each.of_mem 0
  | obj members =>
    rw [draftNested, readNested]
    refine ((each _ (Nat.lt_succ_self _) _).bind fun node => .pure [node]).of_eq fun naming => ?_
    cases read (itemPath path 0) (.obj members) <;> rfl
  | _ =>
    unfold draftNested readNested
    exact .refuse _ _ _

theorem follows_draftBranch (each : DraftedBelow (sizeOf json + 1)) :
    Follows (draftBranch path json) fun naming =>
      (readBranch path json).map (gather naming) := by
  cases json with
  | arr items =>
    match items with
    | [] =>
      unfold draftBranch readBranch
      exact .refuse _ _ _
    | [item] =>
      unfold draftBranch readBranch
      exact follows_single (each.of_mem item List.mem_cons_self)
    | first :: second :: rest =>
      unfold draftBranch readBranch
      exact follows_several each.of_mem (by simp)
  | obj members =>
    unfold draftBranch readBranch
    refine (each _ (Nat.lt_succ_self _) _).of_eq fun naming => ?_
    cases read path (.obj members) <;> rfl
  | _ =>
    unfold draftBranch readBranch
    exact .refuse _ _ _

theorem follows_draftUnder (each : DraftedBelow (sizeOf members)) :
    Follows (draftUnder path members name) fun naming =>
      (readUnder path members name).map (buildAll naming) := by
  rw [draftUnder_eq, readUnder_eq]
  cases found : Table.find? members name with
  | none => exact .refuse _ _ _
  | some json => exact follows_draftNested (each.of_find? found)

theorem follows_draftBody (each : DraftedBelow (sizeOf members)) :
    Follows (draftBody path members) fun naming =>
      (readBody path members).map (buildAll naming) := by
  rw [draftBody_eq, readBody_eq]
  cases found : Table.find? members "body" with
  | none => exact .refuse _ _ _
  | some json => exact follows_draftNested (each.of_find? found)

theorem follows_draftThen (each : DraftedBelow (sizeOf members)) :
    Follows (draftThen path members) fun naming =>
      (readThen path members).map (gather naming) := by
  rw [draftThen_eq, readThen_eq]
  cases found : Table.find? members "then" with
  | none => exact .refuse _ _ _
  | some json => exact follows_draftBranch (each.of_find? found)

theorem follows_draftElse (each : DraftedBelow (sizeOf members)) :
    Follows (draftElse path members) fun naming =>
      (readElse path members).map (gatherAny naming) := by
  have branch {json : Json} (found : Table.find? members "else" = some json) :
      Follows (do return some (← draftBranch (path ++ ".else") json)) fun naming =>
        (readBranch (path ++ ".else") json).map (gatherAny naming) := by
    refine ((follows_draftBranch (each.of_find? found)).bind fun node =>
      .pure (some node)).of_eq fun naming => ?_
    cases h : readBranch (path ++ ".else") json with
    | error faults => rfl
    | ok steps =>
      simp only [Except.map, gatherAny_of_ne_nil naming (readBranch_ne_nil h)]
      rfl
  rw [draftElse_eq, readElse_eq]
  cases found : Table.find? members "else" with
  | none => exact .pure none
  | some json =>
    cases json with
    | null => exact .pure none
    | _ => exact branch found

theorem follows_draftLoopFields {head : StepHead} :
    Follows (draftLoopFields path members inner head) fun naming =>
      (loopSpec path members inner).map fun spec =>
        (((naming.blockId head.id "loop").1, spec), (naming.blockId head.id "loop").2) := by
  refine ((Follows.take _).bind fun condition => (Follows.name _).bind fun id =>
    (Follows.take _).bind fun maxIterations => (Follows.take _).bind fun breakOnError =>
      .pure _).of_eq fun naming => ?_
  unfold loopSpec
  cases blockCondition path members inner "loop" with
  | error faults => rfl
  | ok condition =>
    cases size path inner "max_iterations" with
    | error faults => rfl
    | ok maxIterations => cases flag path inner "break_on_error" true <;> rfl

/-- Wherever the fields of a loop stand, they are drafted before its body. -/
theorem follows_loop {head : StepHead} (each : DraftedBelow (sizeOf inner)) :
    Follows (do
        let (id, spec) ← draftLoopFields path members inner head
        let children ← draftBody path inner
        return ⟨id, .loop spec, children, none, head.tags⟩)
      fun naming => Except.map (build naming) do
        return .loop head (← loopSpec path members inner) (← readBody path inner) := by
  refine (follows_draftLoopFields.bind fun fields => (follows_draftBody each).bind fun children =>
    .pure _).of_eq fun naming => ?_
  cases loopSpec path members inner with
  | error faults => rfl
  | ok spec => cases readBody path inner <;> rfl

theorem follows_draftLoop {head : StepHead} (each : DraftedBelow (sizeOf members)) :
    Follows (draftLoop path members head) fun naming =>
      (readLoop path members head).map (build naming) := by
  rw [draftLoop_eq, readLoop_eq]
  cases found : Table.find? members "loop" with
  | none => exact .refuse _ _ _
  | some json =>
    cases json with
    | obj inner =>
      exact follows_loop fun item less => each item (Nat.lt_trans less (sizeOf_find?_obj found))
    | str text => exact follows_loop each
    | _ => exact .refuse _ _ _

theorem follows_wait {head : StepHead} :
    Follows (do
        let inner ← Drafting.take (block path members "wait")
        let condition ← Drafting.take (blockCondition path members inner "wait")
        let id ← Drafting.name (·.blockId head.id "wait")
        let timeout ← Drafting.take (duration path inner "timeout")
        let pollInterval ← Drafting.take (duration path inner "poll_interval")
        return ⟨id, .wait ⟨condition, timeout, pollInterval⟩, [], none, head.tags⟩)
      fun naming => Except.map (build naming) do return .wait head (← waitSpec path members) := by
  unfold waitSpec
  simp only [bind_assoc, pure_bind]
  refine .after fun inner _ => .after fun condition _ => ?_
  refine ((Follows.name _).bind fun id => (Follows.take _).bind fun timeout =>
    (Follows.take _).bind fun pollInterval => .pure _).of_eq fun naming => ?_
  cases duration path inner "timeout" with
  | error faults => rfl
  | ok timeout => cases duration path inner "poll_interval" <;> rfl

end

/-- Every value is drafted as it is read and built. -/
theorem follows_draft (json : Json) : Drafted json := by
  cases json with
  | obj members =>
    have each : DraftedBelow (sizeOf members) := fun item smaller => follows_draft item
    intro path
    unfold draft read
    refine .after fun keyword hkeyword => .after fun head _ => ?_
    have member := mem_keywords hkeyword
    simp only [keywords, List.mem_cons, List.not_mem_nil, or_false] at member
    rcases member with rfl | rfl | rfl | rfl | rfl | rfl
    · refine Follows.after fun spec _ => ?_
      exact ((Follows.name _).bind fun id => .pure _)
    · refine ((Follows.name _).bind fun id => (follows_draftUnder each).bind fun children =>
        .pure _).of_eq fun naming => ?_
      cases readUnder path members "sequence" <;> rfl
    · refine ((Follows.name _).bind fun id => (Follows.take _).bind fun spec =>
        (follows_draftUnder each).bind fun children => .pure _).of_eq fun naming => ?_
      cases parallelSpec path members with
      | error faults => rfl
      | ok spec => cases readUnder path members "parallel" <;> rfl
    · refine Follows.after fun text _ => ?_
      refine ((Follows.name _).bind fun id => (follows_draftThen each).bind fun yes =>
        (follows_draftElse each).bind fun no => .pure _).of_eq fun naming => ?_
      cases hyes : readThen path members with
      | error faults => rfl
      | ok yes =>
        obtain ⟨_, _, _, nonempty⟩ := readThen_ok hyes
        cases readElse path members with
        | error faults => rfl
        | ok no => exact congrArg Except.ok (build_condition naming head text nonempty no).symm
    · exact follows_draftLoop each
    · exact follows_wait
  | _ =>
    intro path
    unfold draft read
    exact .refuse _ _ _
termination_by sizeOf json
decreasing_by
  subst_vars
  simp only [Json.obj.sizeOf_spec] at *
  omega

theorem follows_draftTree {steps : List Json} (nonempty : steps ≠ []) :
    Follows (draftTree steps) fun naming => (readAll "steps" 0 steps).map (gather naming) := by
  match steps with
  | [] => exact absurd rfl nonempty
  | [step] => exact follows_single (follows_draft step)
  | first :: second :: rest => exact follows_several (fun item _ => follows_draft item) (by simp)

/-! ## What a list of steps comes to -/

/-- How the outcome of a reading is told. -/
def Outcome.ofReading : Reading Node → Outcome
  | .ok root => ⟨true, some root, []⟩
  | .error found => ⟨false, none, found.toList⟩

/-- Drafting a tree in one go comes to what reading and building it one after the other does. -/
theorem outcome_eq (steps : List Json) : outcome steps = .ofReading (parse steps) := by
  cases steps with
  | nil =>
    have nothing : parse [] = .fail (.unreadable "step list is empty") := by
      rw [parse, reservedAll, readAll]
      rfl
    rw [nothing]
    rfl
  | cons step rest =>
    have comes := follows_draftTree (List.cons_ne_nil step rest)
      (.reserving (reservedAll (step :: rest)))
    rw [outcome, parse]
    simp only [List.isEmpty_cons, Bool.false_eq_true, if_false, Draft.reserving] at comes ⊢
    generalize (repeats [] (reservedAll (step :: rest))).map Fault.duplicateId = twice at comes ⊢
    generalize draftTree (step :: rest) _ = run at comes ⊢
    cases h : readAll "steps" 0 (step :: rest) with
    | ok read =>
      rw [h] at comes
      rw [comes.eq_of_ok]
      cases read with
      | nil => cases length_readAll h
      | cons first more =>
        cases twice with
        | nil =>
          rw [← tree_eq_gather]
          rfl
        | cons => rfl
    | error found =>
      rw [h] at comes
      obtain ⟨naming, rfl⟩ := comes.exists_of_error
      cases twice <;> rfl

theorem faults_outcome {steps : List Json} (nonempty : steps ≠ []) :
    (outcome steps).faults = (draftTree steps (.reserving (reservedAll steps))).2.faults := by
  rw [outcome, if_neg (by simpa using nonempty)]
  split
  · next run => rw [run]
  · next run => rw [run]

/-- Ids that are given twice are among the faults, whatever else is wrong. -/
theorem twice_outcome (steps : List Json) :
    (repeats [] (reservedAll steps)).map .duplicateId <+: (outcome steps).faults := by
  by_cases nonempty : steps = []
  · rw [nonempty, reservedAll]
    exact List.nil_prefix
  · obtain ⟨found, record, -⟩ :=
      (follows_draftTree nonempty).accounts (.reserving (reservedAll steps))
    rw [faults_outcome nonempty, record]
    exact List.prefix_append _ _

/-- A list of steps comes to a tree or to faults, and never to both or neither, as it is read. No
part of drafting its tree gives up in silence, and none goes on once it has put something on record;
the ids that are given twice are on record from the start. -/
theorem tree_or_faults (steps : List Json) :
    ((outcome steps).success = true ↔ (outcome steps).root.isSome) ∧
      ((outcome steps).root.isSome ↔ (outcome steps).faults = []) ∧
      outcome steps = .ofReading (parse steps) ∧
      (repeats [] (reservedAll steps)).map .duplicateId <+: (outcome steps).faults ∧
      (∀ path json, Accounts (draft path json)) ∧
      (∀ path members name, Accounts (draftUnder path members name)) ∧
      (∀ path members inner head, Accounts (draftLoopFields path members inner head)) ∧
      (∀ path members head, Accounts (draftLoop path members head)) ∧
      (∀ path members, Accounts (draftBody path members)) ∧
      (∀ path members, Accounts (draftThen path members)) ∧
      (∀ path members, Accounts (draftElse path members)) ∧
      (∀ path json, Accounts (draftBranch path json)) ∧
      (∀ path json, Accounts (draftNested path json)) ∧
      ∀ path i items, Accounts (draftAll path i items) := by
  have each (size : Nat) : DraftedBelow size := fun item _ => follows_draft item
  refine ⟨?_, ?_, outcome_eq steps, twice_outcome steps, fun _ json => (follows_draft json _).accounts,
    fun _ _ _ => (follows_draftUnder (each _)).accounts, fun _ _ _ _ => follows_draftLoopFields.accounts,
    fun _ _ _ => (follows_draftLoop (each _)).accounts, fun _ _ => (follows_draftBody (each _)).accounts,
    fun _ _ => (follows_draftThen (each _)).accounts, fun _ _ => (follows_draftElse (each _)).accounts,
    fun _ _ => (follows_draftBranch (each _)).accounts, fun _ _ => (follows_draftNested (each _)).accounts,
    fun _ i _ => (follows_draftAll (fun item _ => follows_draft item) i).accounts⟩
  all_goals
    rw [outcome_eq]
    cases parse steps <;> simp [Outcome.ofReading, Faults.toList]

end Stepwise.Step

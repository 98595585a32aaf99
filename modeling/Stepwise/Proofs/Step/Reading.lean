import Stepwise.Proofs.Step.Outline

/-!
# Steps that are read

What is read from a value is what its outline lists: every step keeps the id that it gives itself,
and this id is well-formed (`lists_read`). The proof goes down the value as the reader does.
-/

namespace Stepwise

namespace Reading

variable {α β : Type}

/-- A reading in two parts has read both. -/
theorem bind_ok {first : Reading α} {next : α → Reading β} {result : β}
    (h : first >>= next = .ok result) : ∃ value, first = .ok value ∧ next value = .ok result := by
  cases first with
  | ok value => exact ⟨value, rfl, h⟩
  | error faults => cases h

theorem cons_ok {head : Reading α} {tail : Reading (List α)} {values : List α}
    (h : head.cons tail = .ok values) :
    ∃ value rest, head = .ok value ∧ tail = .ok rest ∧ values = value :: rest := by
  cases head with
  | ok value =>
    cases tail with
    | ok rest => exact ⟨value, rest, rfl, rfl, (Except.ok.inj h).symm⟩
    | error faults => cases h
  | error faults =>
    cases tail with
    | ok rest => cases h
    | error more => cases h

end Reading

namespace Step

mutual

/-- The ids that a step and those inside it give themselves, if any, one for each node. -/
def owns : Step → List (Option String)
  | .task head _ => [head.id]
  | .sequence head steps => head.id :: ownsAll steps
  | .parallel head _ steps => head.id :: ownsAll steps
  | .condition head _ yes no =>
    head.id :: ((enclosure yes ++ ownsAll yes) ++ (enclosure no ++ ownsAll no))
  | .loop head _ body => head.id :: ownsAll body
  | .wait head _ => [head.id]

/-- The ids that some steps and those inside them give themselves. -/
def ownsAll : List Step → List (Option String)
  | [] => []
  | step :: rest => owns step ++ ownsAll rest

end

/-- An outline, with the ids that its steps give themselves, which are well-formed. -/
structure Lists (steps : List (Option Json)) (own : List (Option String)) : Prop where
  ids : steps.map (·.bind explicitId) = own
  formed : ∀ id, some id ∈ own → isNodeId id = true

theorem Lists.nil : Lists [] [] := ⟨rfl, nofun⟩

theorem Lists.append {front back : List (Option Json)} {own more : List (Option String)}
    (first : Lists front own) (second : Lists back more) : Lists (front ++ back) (own ++ more) := by
  refine ⟨by rw [List.map_append, first.ids, second.ids], fun id member => ?_⟩
  rcases List.mem_append.1 member with member | member
  · exact first.formed id member
  · exact second.formed id member

theorem ownId_ok {path : String} {members : Table Json} {own : Option String}
    (h : ownId path members = .ok own) :
    own = explicitId (.obj members) ∧ ∀ id, own = some id → isNodeId id = true := by
  simp only [ownId] at h
  split at h
  · next missing =>
    cases h
    exact ⟨by simp [explicitId, missing], nofun⟩
  · next id found =>
    split at h
    · next checked =>
      cases h
      refine ⟨by simp [explicitId, found, Json.str?], ?_⟩
      rintro _ ⟨⟩
      unfold checkId at checked
      split at checked
      · assumption
      · cases checked
    · cases h
  · cases h

theorem head_ok {path : String} {members : Table Json} {head : StepHead}
    (h : Step.head path members = .ok head) : Lists [some (.obj members)] [head.id] := by
  obtain ⟨own, hown, h⟩ := Reading.bind_ok h
  obtain ⟨tags, -, h⟩ := Reading.bind_ok h
  cases h
  obtain ⟨same, formed⟩ := ownId_ok hown
  refine ⟨by rw [List.map_singleton, same]; rfl, fun id member => ?_⟩
  exact formed id (List.mem_singleton.1 member).symm

theorem keyword_ok {path keyword : String} {members : Table Json}
    (h : Step.keyword path members = .ok keyword) :
    keywords.filter (Table.contains members) = [keyword] := by
  unfold Step.keyword at h
  split at h
  · cases h
    assumption
  · cases h
  · cases h

theorem mem_keywords {path keyword : String} {members : Table Json}
    (h : Step.keyword path members = .ok keyword) : keyword ∈ keywords := by
  have inside : keyword ∈ keywords.filter (Table.contains members) :=
    keyword_ok h ▸ List.mem_cons_self
  exact List.mem_of_mem_filter inside

/-- A step that has one keyword holds steps under that one only. -/
theorem outline_of_keyword {path keyword : String} {members : Table Json}
    (h : Step.keyword path members = .ok keyword) :
    outline (.obj members) = some (.obj members) ::
      (if keyword = "sequence" then outlineUnder members "sequence"
      else if keyword = "parallel" then outlineUnder members "parallel"
      else if keyword = "if" then
        (outlineWrapper members "then" ++ outlineUnder members "then")
          ++ (outlineWrapper members "else" ++ outlineUnder members "else")
      else if keyword = "loop" then outlineLoop members
      else []) := by
  have present {name : String} (known : name ∈ keywords) :
      Table.contains members name = true ↔ name = keyword := by
    have inside : name ∈ keywords.filter (Table.contains members) ↔ name = keyword := by
      rw [keyword_ok h]
      exact List.mem_singleton
    rw [← inside, List.mem_filter]
    exact ⟨fun here => ⟨known, here⟩, fun inside => inside.2⟩
  have missing {name : String} (known : name ∈ keywords) (other : name ≠ keyword) :
      Table.find? members name = none := by
    have absent := mt (present known).1 other
    simpa [Table.contains] using absent
  have member := mem_keywords h
  have branches : Table.contains members "if" = decide ("if" = keyword) :=
    Bool.eq_iff_iff.2 ((present (by decide)).trans decide_eq_true_iff.symm)
  have sequence (other : "sequence" ≠ keyword) : outlineUnder members "sequence" = [] :=
    outlineUnder_of_none (missing (by decide) other)
  have parallel (other : "parallel" ≠ keyword) : outlineUnder members "parallel" = [] :=
    outlineUnder_of_none (missing (by decide) other)
  have loop (other : "loop" ≠ keyword) : outlineLoop members = [] :=
    outlineLoop_of_none (missing (by decide) other)
  rw [outline, branches]
  simp only [keywords, List.mem_cons, List.not_mem_nil, or_false] at member
  rcases member with rfl | rfl | rfl | rfl | rfl | rfl
  · simp [sequence, parallel, loop]
  · simp [parallel, loop]
  · simp [sequence, loop]
  · simp [sequence, parallel, loop]
  · simp [sequence, parallel]
  · simp [sequence, parallel, loop]

/-! ## What is read -/

/-- What is read from a step by its keyword. -/
inductive ReadAs (path : String) (members : Table Json) (head : StepHead) : String → Step → Prop
  | task {spec : TaskSpec} (hspec : taskSpec path members = .ok spec) :
      ReadAs path members head "task" (.task head spec)
  | sequence {steps : List Step} (hsteps : readUnder path members "sequence" = .ok steps) :
      ReadAs path members head "sequence" (.sequence head steps)
  | parallel {spec : ParallelSpec} {steps : List Step} (hspec : parallelSpec path members = .ok spec)
      (hsteps : readUnder path members "parallel" = .ok steps) :
      ReadAs path members head "parallel" (.parallel head spec steps)
  | condition {text : String} {yes no : List Step} (htext : branchCondition path members = .ok text)
      (hyes : readThen path members = .ok yes) (hno : readElse path members = .ok no) :
      ReadAs path members head "if" (.condition head text yes no)
  | loop {step : Step} (made : readLoop path members head = .ok step) :
      ReadAs path members head "loop" step
  | wait {spec : WaitSpec} (hspec : waitSpec path members = .ok spec) :
      ReadAs path members head "wait" (.wait head spec)

theorem read_ok {path : String} {members : Table Json} {step : Step}
    (h : read path (.obj members) = .ok step) :
    ∃ keyword head, Step.keyword path members = .ok keyword ∧ Step.head path members = .ok head ∧
      ReadAs path members head keyword step := by
  unfold read at h
  obtain ⟨keyword, hkeyword, rest⟩ := Reading.bind_ok h
  obtain ⟨head, hhead, made⟩ := Reading.bind_ok rest
  clear h rest
  refine ⟨keyword, head, hkeyword, hhead, ?_⟩
  have member := mem_keywords hkeyword
  simp only [keywords, List.mem_cons, List.not_mem_nil, or_false] at member
  rcases member with rfl | rfl | rfl | rfl | rfl | rfl
  · obtain ⟨spec, hspec, made⟩ := Reading.bind_ok made
    cases made
    exact .task hspec
  · obtain ⟨steps, hsteps, made⟩ := Reading.bind_ok made
    cases made
    exact .sequence hsteps
  · obtain ⟨spec, hspec, made⟩ := Reading.bind_ok made
    obtain ⟨steps, hsteps, made⟩ := Reading.bind_ok made
    cases made
    exact .parallel hspec hsteps
  · obtain ⟨text, htext, made⟩ := Reading.bind_ok made
    obtain ⟨yes, hyes, made⟩ := Reading.bind_ok made
    obtain ⟨no, hno, made⟩ := Reading.bind_ok made
    cases made
    exact .condition htext hyes hno
  · exact .loop made
  · obtain ⟨spec, hspec, made⟩ := Reading.bind_ok made
    cases made
    exact .wait hspec

/-- What is read from a value that holds steps: a list of them or one. -/
inductive ReadFrom : Json → List Step → Prop
  | list {path : String} {i : Nat} {items : List Json} {steps : List Step}
      (h : readAll path i items = .ok steps) : ReadFrom (.arr items) steps
  | single {path : String} {members : Table Json} {step : Step}
      (h : read path (.obj members) = .ok step) : ReadFrom (.obj members) [step]

theorem readNested_ok {path : String} {json : Json} {steps : List Step}
    (h : readNested path json = .ok steps) : ReadFrom json steps := by
  unfold readNested at h
  split at h
  · exact .list h
  · obtain ⟨step, hstep, h⟩ := Reading.bind_ok h
    cases h
    exact .single hstep
  · cases h

theorem readBranch_ok {path : String} {json : Json} {steps : List Step}
    (h : readBranch path json = .ok steps) : ReadFrom json steps := by
  unfold readBranch at h
  split at h
  · cases h
  · exact .list h
  · obtain ⟨step, hstep, h⟩ := Reading.bind_ok h
    cases h
    exact .single hstep
  · cases h

/-- A branch that is read has a step at least. -/
theorem readBranch_ne_nil {path : String} {json : Json} {steps : List Step}
    (h : readBranch path json = .ok steps) : steps ≠ [] := by
  unfold readBranch at h
  split at h
  · cases h
  · next items nonempty =>
    cases items with
    | nil => exact absurd rfl nonempty
    | cons item rest =>
      rw [readAll] at h
      obtain ⟨step, more, -, -, rfl⟩ := Reading.cons_ok h
      exact List.cons_ne_nil _ _
  · obtain ⟨step, -, h⟩ := Reading.bind_ok h
    cases h
    exact List.cons_ne_nil _ _
  · cases h

section

variable {members : Table Json} {steps : List Step} {path name : String}

theorem readUnder_eq (path : String) (members : Table Json) (name : String) :
    readUnder path members name =
      match Table.find? members name with
      | some json => readNested (path ++ "." ++ name) json
      | none => refuse (path ++ "." ++ name) "expected a list of steps" := by
  rw [readUnder]
  split <;> simp_all

theorem readBody_eq (path : String) (members : Table Json) :
    readBody path members =
      match Table.find? members "body" with
      | some json => readNested (path ++ ".body") json
      | none => refuse path "loop requires a body" := by
  rw [readBody]
  split <;> simp_all

theorem readThen_eq (path : String) (members : Table Json) :
    readThen path members =
      match Table.find? members "then" with
      | some json => readBranch (path ++ ".then") json
      | none => refuse path "condition requires a then branch" := by
  rw [readThen]
  split <;> simp_all

theorem readElse_eq (path : String) (members : Table Json) :
    readElse path members =
      match Table.find? members "else" with
      | none => .ok []
      | some .null => .ok []
      | some json => readBranch (path ++ ".else") json := by
  rw [readElse]
  split <;> simp_all

theorem readLoop_eq (path : String) (members : Table Json) (head : StepHead) :
    readLoop path members head =
      match Table.find? members "loop" with
      | some (.obj inner) => do
        return .loop head (← loopSpec path members inner) (← readBody path inner)
      | some (.str _) => do
        return .loop head (← loopSpec path members members) (← readBody path members)
      | _ => refuse path "loop must be a condition string or a mapping" := by
  rw [readLoop]
  split <;> simp_all

/-- How a step goes on once its keyword, its id and its tags are right. -/
theorem read_of_keyword {head : StepHead} (one : Step.keyword path members = .ok name)
    (hhead : Step.head path members = .ok head) :
    read path (.obj members) =
      if name = "task" then do return .task head (← taskSpec path members)
      else if name = "sequence" then do
        return .sequence head (← readUnder path members "sequence")
      else if name = "parallel" then do
        let spec ← parallelSpec path members
        return .parallel head spec (← readUnder path members "parallel")
      else if name = "if" then do
        let condition ← branchCondition path members
        return .condition head condition (← readThen path members) (← readElse path members)
      else if name = "loop" then readLoop path members head
      else do return .wait head (← waitSpec path members) := by
  rw [read, one, hhead]
  rfl

theorem readUnder_ok (h : readUnder path members name = .ok steps) :
    ∃ json, Table.find? members name = some json ∧ ReadFrom json steps := by
  unfold readUnder at h
  split at h
  · next json found => exact ⟨json, found, readNested_ok h⟩
  · cases h

theorem readBody_ok (h : readBody path members = .ok steps) :
    ∃ json, Table.find? members "body" = some json ∧ ReadFrom json steps := by
  unfold readBody at h
  split at h
  · next json found => exact ⟨json, found, readNested_ok h⟩
  · cases h

theorem readThen_ok (h : readThen path members = .ok steps) :
    ∃ json, Table.find? members "then" = some json ∧ ReadFrom json steps ∧ steps ≠ [] := by
  unfold readThen at h
  split at h
  · next json found => exact ⟨json, found, readBranch_ok h, readBranch_ne_nil h⟩
  · cases h

/-- There are steps for false only if something other than `null` stands there. -/
theorem readElse_ok (h : readElse path members = .ok steps) :
    (steps = [] ∧ (Table.find? members "else" = none ∨ Table.find? members "else" = some .null)) ∨
      ∃ json, Table.find? members "else" = some json ∧ ReadFrom json steps ∧ steps ≠ [] := by
  unfold readElse at h
  split at h
  · next absent =>
    cases h
    exact .inl ⟨rfl, .inl absent⟩
  · next null =>
    cases h
    exact .inl ⟨rfl, .inr null⟩
  · next json _ found => exact .inr ⟨json, found, readBranch_ok h, readBranch_ne_nil h⟩

/-- The body of a loop stands in the object under the keyword, or among the fields of the step. -/
theorem readLoop_ok {head : StepHead} {step : Step} (h : readLoop path members head = .ok step) :
    ∃ spec body, step = .loop head spec body ∧
      ((∃ inner, Table.find? members "loop" = some (.obj inner) ∧
        readBody path inner = .ok body) ∨
      (∃ text, Table.find? members "loop" = some (.str text) ∧
        readBody path members = .ok body)) := by
  unfold readLoop at h
  split at h
  · next inner found =>
    obtain ⟨spec, -, h⟩ := Reading.bind_ok h
    obtain ⟨body, hbody, h⟩ := Reading.bind_ok h
    cases h
    exact ⟨spec, body, rfl, .inl ⟨inner, found, hbody⟩⟩
  · next text found =>
    obtain ⟨spec, -, h⟩ := Reading.bind_ok h
    obtain ⟨body, hbody, h⟩ := Reading.bind_ok h
    cases h
    exact ⟨spec, body, rfl, .inr ⟨text, found, hbody⟩⟩
  · cases h

end

/-! ## Lists of steps -/

section

variable {members : Table Json} {json : Json} {items : List Json} {steps : List Step}
  {path name : String} {i : Nat}

theorem length_readAll (h : readAll path i items = .ok steps) : steps.length = items.length := by
  induction items generalizing i steps with
  | nil =>
    rw [readAll] at h
    cases h
    rfl
  | cons item rest ih =>
    rw [readAll] at h
    obtain ⟨step, more, -, hmore, rfl⟩ := Reading.cons_ok h
    rw [List.length_cons, List.length_cons, ih hmore]

theorem lists_enclosure (h : readAll path i items = .ok steps) :
    Lists (enclosure items) (enclosure steps) := by
  have same := length_readAll h
  match items, steps, same with
  | [], [], _ => exact .nil
  | [_], [_], _ => exact .nil
  | _ :: _ :: _, _ :: _ :: _, _ => exact ⟨rfl, by simp [enclosure]⟩

theorem lists_readAll (each : ∀ item ∈ items, ∀ path step, read path item = .ok step →
      Lists (outline item) (owns step)) (h : readAll path i items = .ok steps) :
    Lists (outlineAll items) (ownsAll steps) := by
  induction items generalizing i steps with
  | nil =>
    rw [readAll] at h
    cases h
    rw [outlineAll]
    exact .nil
  | cons item rest ih =>
    rw [List.forall_mem_cons] at each
    rw [readAll] at h
    obtain ⟨step, more, hstep, hmore, rfl⟩ := Reading.cons_ok h
    rw [outlineAll, ownsAll]
    exact (each.1 _ step hstep).append (ih each.2 hmore)

/-- Smaller values are read as they are outlined. -/
def ListsBelow (size : Nat) : Prop :=
  ∀ item, sizeOf item < size → ∀ path step, read path item = .ok step →
    Lists (outline item) (owns step)

theorem lists_readFrom (each : ListsBelow (sizeOf members))
    (found : Table.find? members name = some json) (h : ReadFrom json steps) :
    Lists (outlineUnder members name) (ownsAll steps) := by
  cases h with
  | @list path i items steps h =>
    rw [outlineUnder_of_arr found]
    refine lists_readAll (fun item member => each item ?_) h
    exact Nat.lt_trans (List.sizeOf_lt_of_mem member) (sizeOf_find?_arr found)
  | @single path inner step h =>
    rw [outlineUnder_of_obj found, ownsAll, ownsAll, List.append_nil]
    exact each _ (sizeOf_find? found) _ _ h

theorem lists_wrapper (found : Table.find? members name = some json) (h : ReadFrom json steps) :
    Lists (outlineWrapper members name) (enclosure steps) := by
  unfold outlineWrapper
  rw [found]
  cases h with
  | list h => exact lists_enclosure h
  | single h => exact .nil

/-- Several steps of a branch come with a sequence around them. -/
theorem lists_branch (each : ListsBelow (sizeOf members))
    (found : Table.find? members name = some json) (h : ReadFrom json steps) :
    Lists (outlineWrapper members name ++ outlineUnder members name)
      (enclosure steps ++ ownsAll steps) :=
  (lists_wrapper found h).append (lists_readFrom each found h)

theorem lists_readUnder (each : ListsBelow (sizeOf members))
    (h : readUnder path members name = .ok steps) :
    Lists (outlineUnder members name) (ownsAll steps) := by
  obtain ⟨json, found, made⟩ := readUnder_ok h
  exact lists_readFrom each found made

theorem lists_readBody (each : ListsBelow (sizeOf members))
    (h : readBody path members = .ok steps) :
    Lists (outlineUnder members "body") (ownsAll steps) := by
  obtain ⟨json, found, made⟩ := readBody_ok h
  exact lists_readFrom each found made

theorem lists_readThen (each : ListsBelow (sizeOf members))
    (h : readThen path members = .ok steps) :
    Lists (outlineWrapper members "then" ++ outlineUnder members "then")
      (enclosure steps ++ ownsAll steps) := by
  obtain ⟨json, found, made, -⟩ := readThen_ok h
  exact lists_branch each found made

theorem lists_readElse (each : ListsBelow (sizeOf members))
    (h : readElse path members = .ok steps) :
    Lists (outlineWrapper members "else" ++ outlineUnder members "else")
      (enclosure steps ++ ownsAll steps) := by
  rcases readElse_ok h with ⟨rfl, absent⟩ | ⟨json, found, made, -⟩
  · have nothing : outlineUnder members "else" = [] := by
      rw [outlineUnder]
      split <;> simp_all
    have single : outlineWrapper members "else" = [] := by
      rw [outlineWrapper]
      split <;> simp_all
    rw [nothing, single]
    exact .nil
  · exact lists_branch each found made

theorem lists_readLoop (each : ListsBelow (sizeOf members)) {head : StepHead} {step : Step}
    (hhead : Lists [some (.obj members)] [head.id]) (h : readLoop path members head = .ok step) :
    Lists (some (.obj members) :: outlineLoop members) (owns step) := by
  obtain ⟨spec, body, rfl, ⟨inner, found, hbody⟩ | ⟨text, found, hbody⟩⟩ := readLoop_ok h
  · rw [outlineLoop_of_obj found, owns]
    have smaller := sizeOf_find?_obj found
    refine hhead.append (lists_readBody (fun item less => ?_) hbody)
    exact each item (Nat.lt_trans less smaller)
  · rw [outlineLoop_of_str found, owns]
    exact hhead.append (lists_readBody each hbody)

end

/-- Every step that is read keeps the id that it gives itself. -/
theorem lists_read {json : Json} {path : String} {step : Step} (h : read path json = .ok step) :
    Lists (outline json) (owns step) := by
  cases json with
  | obj members =>
    have each : ListsBelow (sizeOf members) := fun item smaller path step h => lists_read h
    obtain ⟨keyword, head, hkeyword, hhead, made⟩ := read_ok h
    have hhead := head_ok hhead
    rw [outline_of_keyword hkeyword]
    cases made with
    | task => exact hhead
    | sequence hsteps => exact hhead.append (lists_readUnder each hsteps)
    | parallel _ hsteps => exact hhead.append (lists_readUnder each hsteps)
    | condition _ hyes hno =>
      exact hhead.append ((lists_readThen each hyes).append (lists_readElse each hno))
    | loop made => exact lists_readLoop each hhead made
    | wait => exact hhead
  | _ =>
    unfold read at h
    cases h
termination_by sizeOf json
decreasing_by
  subst_vars
  simp only [Json.obj.sizeOf_spec] at *
  omega

end Step

end Stepwise

import Mathlib.Data.List.Permutation
import Stepwise.Proofs.Step.Reading
import Stepwise.Proofs.Table
import Stepwise.Step.Tree

/-!
# Flat blocks

The condition of a loop or a wait may stand in an object under the keyword, together with the other
fields of the block, or by itself under the keyword, with these fields beside it. Both are read
alike: if any steps of a list, at any depth, change from the first shape to the second (`Flattens`),
the same tree is read, or the same faults are found (`parse_flattens`).

Steps are read from what is found in their objects, so the proof shows name by name that the same is
found, or else values whose steps are themselves read alike (`HeldAlike`).
-/

namespace Stepwise.Step

open List (Forall₂)

/-! ## Two shapes of a step -/

/-- A block with a condition. -/
inductive Block where
  | loop
  | wait

/-- The keyword under which the condition stands, or the object with all fields of the block. -/
def Block.keyword : Block → String
  | loop => "loop"
  | wait => "wait"

/-- The fields of a block other than the condition. -/
def Block.fields : Block → List String
  | loop => ["body", "max_iterations", "break_on_error"]
  | wait => ["timeout", "poll_interval"]

/-- The keywords of blocks with a condition. -/
def blockKeywords : List String := [Block.loop.keyword, Block.wait.keyword]

/-- The fields that any step may have. -/
def commonFields : List String := ["id", "metadata"]

/-- The names under which steps stand in a step. -/
def stepFields : List String := ["sequence", "parallel", "then", "else", "body"]

section

variable (R : Json → Json → Prop)

/-- What is found in two places is the same, or holds steps that are related one by one. -/
inductive HeldAlike : Option Json → Option Json → Prop
  | same (value : Option Json) : HeldAlike value value
  | list {items items' : List Json} (each : Forall₂ R items items') :
      HeldAlike (some (.arr items)) (some (.arr items'))
  | alone {inner inner' : Table Json} (step : R (.obj inner) (.obj inner')) :
      HeldAlike (some (.obj inner)) (some (.obj inner'))

/-- What two blocks have under one name is the same but for related steps in the body. -/
inductive FieldAlike : String → Option Json → Option Json → Prop
  | same (name : String) (value : Option Json) : FieldAlike name value value
  | body {value value' : Option Json} (held : HeldAlike R value value') :
      FieldAlike "body" value value'

/-- What two steps have under one name is the same but for related steps in it. -/
inductive MemberAlike : String → Option Json → Option Json → Prop
  | same (name : String) (value : Option Json) : MemberAlike name value value
  | steps {name : String} {value value' : Option Json} (place : name ∈ stepFields)
      (held : HeldAlike R value value') : MemberAlike name value value'
  | block {kind : Block} {inner inner' : Table Json}
      (each : ∀ name, FieldAlike R name (Table.find? inner name) (Table.find? inner' name)) :
      MemberAlike kind.keyword (some (.obj inner)) (some (.obj inner'))

end

/-- The second step is the first with some loops and waits made flat, itself or any steps inside it:
the object that holds the condition gives way to the condition, and its other fields move up beside
the keyword. In what order the members of an object stand is left open. -/
inductive Flattens : Json → Json → Prop
  | same (json : Json) : Flattens json json
  | block {kind : Block} {text : String} {nested flat inner common fields fields' : Table Json}
      (onlyCommon : ∀ name ∈ Table.keys common, name ∈ commonFields)
      (onlyFields : ∀ name ∈ Table.keys fields, name ∈ kind.fields)
      (each : ∀ name, FieldAlike Flattens name (Table.find? fields name) (Table.find? fields' name))
      (hinner : Table.find? inner = Table.find? (("condition", .str text) :: fields))
      (hnested : Table.find? nested = Table.find? ((kind.keyword, .obj inner) :: common))
      (hflat : Table.find? flat = Table.find? ((kind.keyword, .str text) :: (fields' ++ common))) :
      Flattens (.obj nested) (.obj flat)
  | inside {members members' : Table Json}
      (each : ∀ name, MemberAlike Flattens name (Table.find? members name)
        (Table.find? members' name)) :
      Flattens (.obj members) (.obj members')

/-! ## Read alike -/

/-- The same is read from two values, in any place, and they reserve the same ids. -/
structure ReadsAlike (json json' : Json) : Prop where
  read : ∀ path, read path json = read path json'
  reserved : reserved json = reserved json'

theorem readAll_congr {items items' : List Json} (h : Forall₂ ReadsAlike items items')
    (path : String) (i : Nat) : readAll path i items = readAll path i items' := by
  induction h generalizing i with
  | nil => rfl
  | cons first _ ih => rw [readAll, readAll, first.read, ih]

theorem reservedAll_congr {items items' : List Json} (h : Forall₂ ReadsAlike items items') :
    reservedAll items = reservedAll items' := by
  induction h with
  | nil => rfl
  | cons first _ ih => rw [reservedAll, reservedAll, first.reserved, ih]

section

variable {json json' : Json} {members members' : Table Json} {name : String}

theorem readNested_congr (h : HeldAlike ReadsAlike (some json) (some json')) (path : String) :
    readNested path json = readNested path json' := by
  cases h with
  | same => rfl
  | list each => rw [readNested, readNested, readAll_congr each]
  | alone step => rw [readNested, readNested, step.read]

theorem readBranch_congr (h : HeldAlike ReadsAlike (some json) (some json')) (path : String) :
    readBranch path json = readBranch path json' := by
  cases h with
  | same => rfl
  | alone step => rw [readBranch, readBranch, step.read]
  | list each =>
    cases each with
    | nil => rfl
    | cons first rest =>
      rw [readBranch, readBranch, readAll_congr (.cons first rest)]
      all_goals exact List.cons_ne_nil _ _

theorem readUnder_congr
    (h : HeldAlike ReadsAlike (Table.find? members name) (Table.find? members' name))
    (path : String) : readUnder path members name = readUnder path members' name := by
  rw [readUnder_eq, readUnder_eq]
  match Table.find? members name, Table.find? members' name, h with
  | none, none, _ => rfl
  | some _, some _, h => exact readNested_congr h _

theorem readBody_congr
    (h : HeldAlike ReadsAlike (Table.find? members "body") (Table.find? members' "body"))
    (path : String) : readBody path members = readBody path members' := by
  rw [readBody_eq, readBody_eq]
  match Table.find? members "body", Table.find? members' "body", h with
  | none, none, _ => rfl
  | some _, some _, h => exact readNested_congr h _

theorem readThen_congr
    (h : HeldAlike ReadsAlike (Table.find? members "then") (Table.find? members' "then"))
    (path : String) : readThen path members = readThen path members' := by
  rw [readThen_eq, readThen_eq]
  match Table.find? members "then", Table.find? members' "then", h with
  | none, none, _ => rfl
  | some _, some _, h => exact readBranch_congr h _

theorem readElse_congr
    (h : HeldAlike ReadsAlike (Table.find? members "else") (Table.find? members' "else"))
    (path : String) : readElse path members = readElse path members' := by
  rw [readElse_eq, readElse_eq]
  generalize Table.find? members "else" = value, Table.find? members' "else" = value' at h ⊢
  cases h with
  | same => rfl
  | list each => exact readBranch_congr (.list each) _
  | alone step => exact readBranch_congr (.alone step) _

theorem reservedUnder_congr
    (h : HeldAlike ReadsAlike (Table.find? members name) (Table.find? members' name)) :
    reservedUnder members name = reservedUnder members' name := by
  rw [reservedUnder_eq, reservedUnder_eq]
  generalize Table.find? members name = value, Table.find? members' name = value' at h ⊢
  cases h with
  | same => rfl
  | list each => exact reservedAll_congr each
  | alone step => exact step.reserved

end

/-! ## Fields -/

section

variable {R : Json → Json → Prop} {name : String} {value value' : Option Json}

theorem HeldAlike.isSome_eq (h : HeldAlike R value value') : value.isSome = value'.isSome := by
  cases h <;> rfl

theorem FieldAlike.held (h : FieldAlike R name value value') : HeldAlike R value value' := by
  cases h with
  | same => exact .same _
  | body held => exact held

theorem FieldAlike.eq (h : FieldAlike R name value value') (apart : name ≠ "body") :
    value = value' := by
  cases h with
  | same => rfl
  | body => exact absurd rfl apart

theorem FieldAlike.eq_none (h : FieldAlike R name none value) : value = none := by
  have held := h.held
  cases held
  rfl

theorem MemberAlike.isSome_eq (h : MemberAlike R name value value') :
    value.isSome = value'.isSome := by
  cases h with
  | same => rfl
  | steps _ held => exact held.isSome_eq
  | block => rfl

theorem Block.keyword_mem (kind : Block) : kind.keyword ∈ blockKeywords := by
  cases kind <;> decide

/-- The fields of a block are neither keywords of blocks nor fields that any step may have, and
only the body holds steps. -/
theorem Block.apart (kind : Block) : ∀ name ∈ kind.fields, name ∉ blockKeywords ∧
    name ∉ commonFields ∧ name ≠ "condition" ∧ (name ∈ stepFields → name = "body") := by
  cases kind <;> decide

theorem MemberAlike.held (h : MemberAlike R name value value') (apart : name ∉ blockKeywords) :
    HeldAlike R value value' := by
  cases h with
  | same => exact .same _
  | steps _ held => exact held
  | @block kind => exact absurd kind.keyword_mem apart

theorem MemberAlike.eq (h : MemberAlike R name value value') (apart : name ∉ blockKeywords)
    (plain : name ∉ stepFields) : value = value' := by
  cases h with
  | same => rfl
  | steps place => exact absurd place plain
  | @block kind => exact absurd kind.keyword_mem apart

theorem MemberAlike.field {kind : Block} (h : MemberAlike R name value value')
    (place : name ∈ kind.fields) : FieldAlike R name value value' := by
  obtain ⟨apart, -, -, body⟩ := kind.apart name place
  cases h with
  | same => exact .same _ _
  | steps place held => exact body place ▸ .body held
  | @block kind => exact absurd kind.keyword_mem apart

/-- What stands under the keyword of a block is the same, or an object with alike fields. -/
theorem MemberAlike.under_keyword {kind : Block} (h : MemberAlike R name value value')
    (own : name = kind.keyword) : value = value' ∨
      ∃ inner inner', value = some (.obj inner) ∧ value' = some (.obj inner') ∧
        ∀ name, FieldAlike R name (Table.find? inner name) (Table.find? inner' name) := by
  cases h with
  | same => exact .inl rfl
  | steps place =>
    subst own
    cases kind <;> exact absurd place (by decide)
  | block each => exact .inr ⟨_, _, rfl, rfl, each⟩

end

section

variable {members members' : Table Json}

theorem keyword_congr
    (h : ∀ name ∈ keywords, Table.contains members name = Table.contains members' name)
    (path : String) : keyword path members = keyword path members' := by
  rw [keyword, keyword, List.filter_congr h]

theorem head_congr (h : ∀ name ∈ commonFields, Table.find? members name = Table.find? members' name)
    (path : String) : head path members = head path members' := by
  have hid := h "id" (by decide)
  have htags := h "metadata" (by decide)
  rw [head, head, ownId, ownId, tags, tags, hid, htags]

/-- The fields of a task. -/
def taskFields : List String :=
  ["task", "tools", "parameters", "retry_count", "timeout", "description"]

theorem taskSpec_congr (h : ∀ name ∈ taskFields, Table.find? members name = Table.find? members' name)
    (path : String) : taskSpec path members = taskSpec path members' := by
  simp only [taskFields, List.forall_mem_cons] at h
  obtain ⟨htask, htools, hparameters, hretries, htimeout, hdescription, -⟩ := h
  simp only [taskSpec, tools, parameters, retries, duration, *]

/-- The fields of a parallel block. -/
def parallelFields : List String := ["max_concurrency", "fail_fast", "wait_for_all"]

theorem parallelSpec_congr
    (h : ∀ name ∈ parallelFields, Table.find? members name = Table.find? members' name)
    (path : String) : parallelSpec path members = parallelSpec path members' := by
  simp only [parallelFields, List.forall_mem_cons] at h
  obtain ⟨hsize, hfail, hwait, -⟩ := h
  simp only [parallelSpec, size, flag, *]

theorem branchCondition_congr (h : Table.find? members "if" = Table.find? members' "if")
    (path : String) : branchCondition path members = branchCondition path members' := by
  rw [branchCondition, branchCondition, h]

end

/-! ## Blocks -/

/-- Where the fields of a block stand in two steps: nowhere, or in places with the same condition
and with the same fields but for steps of the body that are read alike. -/
inductive BlocksAlike (kind : Block) (members members' : Table Json) :
    Reading (Table Json) → Reading (Table Json) → Prop
  | error (faults : Faults) : BlocksAlike kind members members' (.error faults) (.error faults)
  | ok {inner inner' : Table Json}
      (condition : ∀ path, blockCondition path members inner kind.keyword =
        blockCondition path members' inner' kind.keyword)
      (fields : ∀ name ∈ kind.fields,
        FieldAlike ReadsAlike name (Table.find? inner name) (Table.find? inner' name)) :
      BlocksAlike kind members members' (.ok inner) (.ok inner')

section

variable {members members' : Table Json} {path : String}

theorem readLoop_eq_block (path : String) (members : Table Json) (head : StepHead) :
    readLoop path members head = do
      let inner ← block path members "loop"
      return .loop head (← loopSpec path members inner) (← readBody path inner) := by
  rw [readLoop_eq, block]
  match Table.find? members "loop" with
  | none => rfl
  | some json => cases json <;> rfl

theorem readLoop_congr (h : BlocksAlike .loop members members'
      (block path members "loop") (block path members' "loop")) (head : StepHead) :
    readLoop path members head = readLoop path members' head := by
  rw [readLoop_eq_block, readLoop_eq_block]
  generalize block path members "loop" = inner, block path members' "loop" = inner' at h ⊢
  cases h with
  | error => rfl
  | @ok inner inner' condition fields =>
    have hcondition : blockCondition path members inner "loop" =
        blockCondition path members' inner' "loop" := condition path
    have hsize := (fields "max_iterations" (by decide)).eq (by decide)
    have hflag := (fields "break_on_error" (by decide)).eq (by decide)
    have hbody := readBody_congr (fields "body" (by decide)).held path
    have hspec : loopSpec path members inner = loopSpec path members' inner' := by
      rw [loopSpec, loopSpec, hcondition, size, size, flag, flag, hsize, hflag]
    simp only [bind, Except.bind, hspec, hbody]

theorem waitSpec_congr (h : BlocksAlike .wait members members'
      (block path members "wait") (block path members' "wait")) :
    waitSpec path members = waitSpec path members' := by
  rw [waitSpec, waitSpec]
  generalize block path members "wait" = inner, block path members' "wait" = inner' at h ⊢
  cases h with
  | error => rfl
  | @ok inner inner' condition fields =>
    have hcondition : blockCondition path members inner "wait" =
        blockCondition path members' inner' "wait" := condition path
    have htimeout := (fields "timeout" (by decide)).eq (by decide)
    have hpoll := (fields "poll_interval" (by decide)).eq (by decide)
    simp only [bind, Except.bind, hcondition, duration, htimeout, hpoll]

theorem blockCondition_congr {inner inner' : Table Json} {name : String}
    (h : conditionText? ((Table.find? inner "condition").or (Table.find? members name)) =
      conditionText? ((Table.find? inner' "condition").or (Table.find? members' name)))
    (path : String) : blockCondition path members inner name =
      blockCondition path members' inner' name := by
  rw [blockCondition, blockCondition, h]

end

/-! ## Steps -/

theorem reserved_eq (members : Table Json) : reserved (.obj members) =
    ((Table.find? members "id").bind Json.str?).toList
      ++ reservedUnder members "sequence" ++ reservedUnder members "parallel"
      ++ reservedUnder members "then" ++ reservedUnder members "else"
      ++ reservedUnder members "body"
      ++ reservedBody members "loop" ++ reservedBody members "wait" := by
  rw [reserved]

section

variable {members members' : Table Json}
  (each : ∀ name, MemberAlike ReadsAlike name (Table.find? members name) (Table.find? members' name))

include each

theorem blocksAlike_of_members (kind : Block) (path : String) :
    BlocksAlike kind members members'
      (block path members kind.keyword) (block path members' kind.keyword) := by
  have hcondition : Table.find? members "condition" = Table.find? members' "condition" :=
    (each "condition").eq (by decide) (by decide)
  rcases (each kind.keyword).under_keyword rfl with same | ⟨inner, inner', here, here', fields⟩
  · rw [block, block, same]
    split
    · exact .ok (blockCondition_congr (by rw [same])) fun name _ => .same _ _
    · exact .ok (blockCondition_congr (by rw [same, hcondition])) fun name => (each name).field
    · exact .error _
  · rw [block, block, here, here']
    refine .ok (blockCondition_congr ?_) fun name _ => fields name
    rw [here, here', (fields "condition").eq (by decide)]
    cases Table.find? inner' "condition" <;> rfl

theorem reservedBody_of_members (kind : Block) :
    reservedBody members kind.keyword = reservedBody members' kind.keyword := by
  rw [reservedBody_eq, reservedBody_eq]
  rcases (each kind.keyword).under_keyword rfl with same | ⟨inner, inner', here, here', fields⟩
  · rw [same]
  · rw [here, here']
    exact reservedUnder_congr (fields "body").held

/-- Steps are read alike whose members are the same but for steps in them that are read alike. -/
theorem readsAlike_of_members : ReadsAlike (.obj members) (.obj members') := by
  have held (name : String) (place : name ∈ stepFields) :
      HeldAlike ReadsAlike (Table.find? members name) (Table.find? members' name) := by
    refine (each name).held ?_
    revert name
    decide
  have plain {names : List String} (apart : ∀ name ∈ names, name ∉ blockKeywords ∧ name ∉ stepFields) :
      ∀ name ∈ names, Table.find? members name = Table.find? members' name :=
    fun name member => (each name).eq (apart name member).1 (apart name member).2
  constructor
  · intro path
    have hkeyword : keyword path members = keyword path members' :=
      keyword_congr (fun name _ => (each name).isSome_eq) path
    have hhead : head path members = head path members' := head_congr (plain (by decide)) path
    have htask : taskSpec path members = taskSpec path members' :=
      taskSpec_congr (plain (by decide)) path
    have hparallel : parallelSpec path members = parallelSpec path members' :=
      parallelSpec_congr (plain (by decide)) path
    have hcondition : branchCondition path members = branchCondition path members' :=
      branchCondition_congr ((each "if").eq (by decide) (by decide)) path
    have hloop := readLoop_congr (blocksAlike_of_members each .loop path)
    have hwait := waitSpec_congr (blocksAlike_of_members each .wait path)
    have hsequence := readUnder_congr (held "sequence" (by decide)) path
    have hlanes := readUnder_congr (held "parallel" (by decide)) path
    have hthen := readThen_congr (held "then" (by decide)) path
    have helse := readElse_congr (held "else" (by decide)) path
    simp only [read, *]
  · have hid : Table.find? members "id" = Table.find? members' "id" :=
      (each "id").eq (by decide) (by decide)
    have hsteps (name : String) (place : name ∈ stepFields) :
        reservedUnder members name = reservedUnder members' name :=
      reservedUnder_congr (held name place)
    have hloop : reservedBody members "loop" = reservedBody members' "loop" :=
      reservedBody_of_members each .loop
    have hwait : reservedBody members "wait" = reservedBody members' "wait" :=
      reservedBody_of_members each .wait
    rw [reserved_eq, reserved_eq, hid, hloop, hwait, hsteps "sequence" (by decide),
      hsteps "parallel" (by decide), hsteps "then" (by decide), hsteps "else" (by decide),
      hsteps "body" (by decide)]

end

/-! ## Blocks made flat -/

/-- A block and the same made flat, as they are read. -/
structure MadeFlat (kind : Block) (text : String) (nested inner flat : Table Json) : Prop where
  object : Table.find? nested kind.keyword = some (.obj inner)
  condition : Table.find? inner "condition" = some (.str text)
  keyword : Table.find? flat kind.keyword = some (.str text)
  noCondition : Table.find? flat "condition" = none
  common : ∀ name ∈ commonFields, Table.find? nested name = Table.find? flat name
  noField : ∀ name ∉ commonFields, name ≠ kind.keyword → Table.find? nested name = none
  noOther : ∀ name ∉ commonFields, name ≠ kind.keyword → name ∉ kind.fields →
    Table.find? flat name = none
  fields : ∀ name ∉ commonFields, name ≠ kind.keyword → name ≠ "condition" →
    FieldAlike ReadsAlike name (Table.find? inner name) (Table.find? flat name)

section

variable {kind : Block} {text : String} {nested flat inner common fields fields' : Table Json}

theorem madeFlat_of_find? (onlyCommon : ∀ name ∈ Table.keys common, name ∈ commonFields)
    (onlyFields : ∀ name ∈ Table.keys fields, name ∈ kind.fields)
    (each : ∀ name, FieldAlike ReadsAlike name (Table.find? fields name) (Table.find? fields' name))
    (hinner : Table.find? inner = Table.find? (("condition", .str text) :: fields))
    (hnested : Table.find? nested = Table.find? ((kind.keyword, .obj inner) :: common))
    (hflat : Table.find? flat = Table.find? ((kind.keyword, .str text) :: (fields' ++ common))) :
    MadeFlat kind text nested inner flat := by
  have noCommon (name : String) (other : name ∉ commonFields) : Table.find? common name = none :=
    Table.find?_eq_none fun member => other (onlyCommon name member)
  have noField (name : String) (other : name ∉ kind.fields) : Table.find? fields name = none :=
    Table.find?_eq_none fun member => other (onlyFields name member)
  have noField' (name : String) (other : name ∉ kind.fields) : Table.find? fields' name = none := by
    have alike := each name
    rw [noField name other] at alike
    exact alike.eq_none
  have below {name : String} (other : name ≠ kind.keyword) : Table.find? flat name =
      (Table.find? fields' name).or (Table.find? common name) := by
    rw [hflat, Table.find?, if_neg other.symm, Table.find?_append]
  have beside {name : String} (other : name ≠ kind.keyword) :
      Table.find? nested name = Table.find? common name := by
    rw [hnested, Table.find?, if_neg other.symm]
  have named : ∀ name ∈ commonFields, name ≠ kind.keyword ∧ name ∉ kind.fields := by
    cases kind <;> decide
  have apart : "condition" ≠ kind.keyword ∧ "condition" ∉ kind.fields := by
    cases kind <;> decide
  constructor
  case object => rw [hnested, Table.find?, if_pos rfl]
  case condition => rw [hinner, Table.find?, if_pos rfl]
  case keyword => rw [hflat, Table.find?, if_pos rfl]
  case noCondition =>
    rw [below apart.1, noField' _ apart.2, noCommon _ (by decide)]
    rfl
  case common =>
    intro name member
    obtain ⟨other, plain⟩ := named name member
    rw [beside other, below other, noField' name plain]
    rfl
  case noField =>
    intro name uncommon other
    rw [beside other, noCommon name uncommon]
  case noOther =>
    intro name uncommon other plain
    rw [below other, noField' name plain, noCommon name uncommon]
    rfl
  case fields =>
    intro name uncommon other free
    rw [below other, noCommon name uncommon, Option.or_none, hinner, Table.find?, if_neg free.symm]
    exact each name

/-- A step that has no other keyword than that of a block is such a block. -/
theorem keyword_of_noOther {members : Table Json}
    (here : Table.contains members kind.keyword = true)
    (noOther : ∀ name ∈ keywords, name ≠ kind.keyword → Table.find? members name = none)
    (path : String) : keyword path members = .ok kind.keyword := by
  have same : keywords.filter (Table.contains members) = keywords.filter (· = kind.keyword) := by
    refine List.filter_congr fun name member => ?_
    by_cases own : name = kind.keyword
    · rw [own, here, decide_eq_true rfl]
    · rw [Table.contains, noOther name member own, decide_eq_false own]
      rfl
  rw [keyword, same]
  cases kind <;> rfl

namespace MadeFlat

theorem keyword_nested (h : MadeFlat kind text nested inner flat) (path : String) :
    Step.keyword path nested = .ok kind.keyword := by
  refine keyword_of_noOther (by rw [Table.contains, h.object]; rfl) (fun name member other => ?_) path
  exact h.noField name ((by decide : ∀ name ∈ keywords, name ∉ commonFields) name member) other

theorem keyword_flat (h : MadeFlat kind text nested inner flat) (path : String) :
    Step.keyword path flat = .ok kind.keyword := by
  refine keyword_of_noOther (by rw [Table.contains, h.keyword]; rfl) (fun name member other => ?_) path
  have uncommon := (by decide : ∀ name ∈ keywords, name ∉ commonFields) name member
  have plain : ∀ name ∈ keywords, name ∉ kind.fields := by
    cases kind <;> decide
  exact h.noOther name uncommon other (plain name member)

theorem blocksAlike (h : MadeFlat kind text nested inner flat) (path : String) :
    BlocksAlike kind nested flat
      (block path nested kind.keyword) (block path flat kind.keyword) := by
  rw [block, block, h.object, h.keyword]
  refine .ok (blockCondition_congr ?_) fun name place => ?_
  · rw [h.condition, h.noCondition, h.keyword]
    rfl
  · obtain ⟨other, uncommon, free, -⟩ := kind.apart name place
    exact h.fields name uncommon (fun own => other (own ▸ kind.keyword_mem)) free

theorem read_eq (h : MadeFlat kind text nested inner flat) (path : String) :
    read path (.obj nested) = read path (.obj flat) := by
  have same : head path nested = head path flat := head_congr h.common path
  cases hhead : head path nested with
  | error faults =>
    rw [read, read, h.keyword_nested, h.keyword_flat, ← same, hhead]
    rfl
  | ok head =>
    rw [read_of_keyword (h.keyword_nested path) hhead,
      read_of_keyword (h.keyword_flat path) (same ▸ hhead)]
    have alike := h.blocksAlike path
    cases kind with
    | loop => exact readLoop_congr alike head
    | wait =>
      have hspec := waitSpec_congr alike
      show (do return Step.wait head (← waitSpec path nested)) = _
      rw [hspec]
      rfl

/-- A block reserves its id, and the ids of the steps in its body, which stands in the object. -/
theorem reserved_nested (h : MadeFlat kind text nested inner flat) : reserved (.obj nested) =
    ((Table.find? nested "id").bind Json.str?).toList ++ reservedUnder inner "body" := by
  have nothing (name : String) (place : name ∈ stepFields) : reservedUnder nested name = [] := by
    have apart : ∀ name ∈ stepFields, name ∉ commonFields ∧ name ≠ kind.keyword := by
      cases kind <;> decide
    rw [reservedUnder_eq, h.noField name (apart name place).1 (apart name place).2]
  have own : reservedBody nested kind.keyword = reservedUnder inner "body" :=
    reservedBody_of_obj h.object
  have other (name : String) (uncommon : name ∉ commonFields) (other : name ≠ kind.keyword) :
      reservedBody nested name = [] := by
    rw [reservedBody_eq, h.noField name uncommon other]
  have bodies : reservedBody nested "loop" ++ reservedBody nested "wait" =
      reservedUnder inner "body" := by
    cases kind with
    | loop => rw [other "wait" (by decide) (by decide), List.append_nil, ← own, Block.keyword]
    | wait => rw [other "loop" (by decide) (by decide), List.nil_append, ← own, Block.keyword]
  rw [reserved_eq, nothing "sequence" (by decide), nothing "parallel" (by decide),
    nothing "then" (by decide), nothing "else" (by decide), nothing "body" (by decide),
    List.append_assoc, bodies]
  simp only [List.append_nil]

/-- Made flat it reserves the same, with the body among its fields. -/
theorem reserved_flat (h : MadeFlat kind text nested inner flat) : reserved (.obj flat) =
    ((Table.find? flat "id").bind Json.str?).toList ++ reservedUnder flat "body" := by
  have nothing (name : String) (place : name ∈ ["sequence", "parallel", "then", "else"]) :
      reservedUnder flat name = [] := by
    have apart : ∀ name ∈ ["sequence", "parallel", "then", "else"],
        name ∉ commonFields ∧ name ≠ kind.keyword ∧ name ∉ kind.fields := by
      cases kind <;> decide
    obtain ⟨uncommon, other, plain⟩ := apart name place
    rw [reservedUnder_eq, h.noOther name uncommon other plain]
  have body (other : Block) : reservedBody flat other.keyword = [] := by
    rw [reservedBody_eq]
    cases kind <;> cases other
    · rw [h.keyword]
    · rw [h.noOther Block.wait.keyword (by decide) (by decide) (by decide)]
    · rw [h.noOther Block.loop.keyword (by decide) (by decide) (by decide)]
    · rw [h.keyword]
  have hloop : reservedBody flat "loop" = [] := body .loop
  have hwait : reservedBody flat "wait" = [] := body .wait
  rw [reserved_eq, nothing "sequence" (by decide), nothing "parallel" (by decide),
    nothing "then" (by decide), nothing "else" (by decide), hloop, hwait]
  simp only [List.append_nil]

theorem readsAlike (h : MadeFlat kind text nested inner flat) :
    ReadsAlike (.obj nested) (.obj flat) := by
  refine ⟨h.read_eq, ?_⟩
  have hbody : HeldAlike ReadsAlike (Table.find? inner "body") (Table.find? flat "body") :=
    (h.fields "body" (by decide) (by cases kind <;> decide) (by decide)).held
  rw [h.reserved_nested, h.reserved_flat, h.common "id" (by decide), reservedUnder_congr hbody]

end MadeFlat

end

/-! ## Lists of steps -/

/-- Steps are read alike whatever blocks in them are made flat. Each motive says of what is related
by `Flattens` at some place that it is read alike there. -/
theorem Flattens.readsAlike {json json' : Json} (h : Flattens json json') :
    ReadsAlike json json' := by
  refine @Flattens.rec (fun json json' _ => ReadsAlike json json')
    (fun name value value' _ => FieldAlike ReadsAlike name value value')
    (fun name value value' _ => MemberAlike ReadsAlike name value value')
    (fun value value' _ => HeldAlike ReadsAlike value value')
    (fun items items' _ => Forall₂ ReadsAlike items items')
    ?same ?block ?inside .same (fun _ => .body) .same (fun place _ => .steps place)
    (fun _ => .block) .same (fun _ => .list) (fun _ => .alone) .nil (fun _ _ => .cons) json json' h
  case same => exact fun _ => ⟨fun _ => rfl, rfl⟩
  case block =>
    intro kind text nested flat inner common fields fields' onlyCommon onlyFields _ hinner hnested
      hflat each
    exact (madeFlat_of_find? onlyCommon onlyFields each hinner hnested hflat).readsAlike
  case inside => exact fun _ each => readsAlike_of_members each

/-- Whichever loops and waits of a list of steps are made flat, the same tree is read from it, or
the same faults are found, in the same order. -/
theorem parse_flattens {steps steps' : List Json} (h : Forall₂ Flattens steps steps') :
    parse steps = parse steps' := by
  have alike : Forall₂ ReadsAlike steps steps' := h.imp fun _ _ => Flattens.readsAlike
  rw [parse, parse, reservedAll_congr alike, readAll_congr alike]

/-- A block is made flat in whatever order its members stand, if no name stands twice. -/
theorem Flattens.ofMembers {kind : Block} {text : String} {common fields fields' : Table Json}
    (onlyCommon : ∀ name ∈ Table.keys common, name ∈ commonFields)
    (onlyFields : ∀ name ∈ Table.keys fields, name ∈ kind.fields)
    (each : ∀ name, FieldAlike Flattens name (Table.find? fields name) (Table.find? fields' name))
    (once : ("condition" :: Table.keys fields).Nodup)
    (onceNested : (kind.keyword :: Table.keys common).Nodup)
    (onceFlat : (kind.keyword :: Table.keys (fields' ++ common)).Nodup) :
    Flattens
      (.ofMembers ((kind.keyword, .ofMembers (("condition", .str text) :: fields)) :: common))
      (.ofMembers ((kind.keyword, .str text) :: (fields' ++ common))) :=
  .block onlyCommon onlyFields each (funext (Table.find?_ofList_eq once))
    (funext (Table.find?_ofList_eq onceNested)) (funext (Table.find?_ofList_eq onceFlat))

/-- A loop that waits and then calls a task, with the fields of both blocks in objects. -/
def rounds : List Json :=
  [.ofMembers [("loop", .ofMembers [("condition", .str "more"), ("max_iterations", .int 3),
      ("body", .arr [.ofMembers [("wait", .ofMembers [("condition", .str "ready")])],
        .ofMembers [("task", .str "fetch")]])]), ("id", .str "again")]]

/-- The same with both blocks made flat. -/
def flatRounds : List Json :=
  [.ofMembers [("loop", .str "more"), ("max_iterations", .int 3),
    ("body", .arr [.ofMembers [("wait", .str "ready")], .ofMembers [("task", .str "fetch")]]),
    ("id", .str "again")]]

/-- The tree of both shapes of a loop. -/
def repeated : Node :=
  .make "again" (.loop ⟨"more", some 3, true⟩)
    [.make "wait_1" (.wait ⟨"ready", none, none⟩) [],
      .make "fetch" (.task ⟨"fetch", [], [], 0, none, none⟩) []]

theorem parse_flattens_rounds : Forall₂ Flattens rounds flatRounds ∧
    parse rounds = parse flatRounds ∧ parse flatRounds = .ok repeated := by
  have wait : Flattens (.ofMembers [("wait", .ofMembers [("condition", .str "ready")])])
      (.ofMembers [("wait", .str "ready")]) :=
    @Flattens.ofMembers .wait "ready" [] [] [] (by decide) (by decide) (fun _ => .same _ _)
      (by decide) (by decide) (by decide)
  have flattens : Forall₂ Flattens rounds flatRounds := by
    refine .cons ?_ .nil
    refine @Flattens.ofMembers .loop "more" [("id", .str "again")] [("max_iterations", .int 3), _]
      [("max_iterations", .int 3), _] (by decide) (by decide) (fun name => ?_)
      (by decide) (by decide) (by decide)
    by_cases body : name = "body"
    · subst body
      exact .body (.list (.cons wait (.cons (.same _) .nil)))
    · simp only [Table.find?, if_neg (Ne.symm body)]
      exact .same _ _
  exact ⟨flattens, parse_flattens flattens, by cbv⟩

end Stepwise.Step

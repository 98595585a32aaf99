import Stepwise.Proofs.Step.Naming
import Stepwise.Proofs.Step.Reading
import Stepwise.Proofs.Step.Tree

/-!
# Steps that are refused

A step without exactly one keyword is refused at its own path, whatever else is wrong in its list
(`finds_malformed_iff`). One place is left out: the branch of a condition for false is not read if
the branch for true is refused, and nothing is said about its steps then.

The proof goes by locality: of all the faults of a list, those at a path below one of its items are
the faults of this item.
-/

namespace Stepwise

namespace Faults

variable {fault : Fault}

theorem mem_append {a b : Faults} :
    fault ∈ (a.append b).toList ↔ fault ∈ a.toList ∨ fault ∈ b.toList := by
  simp only [append, toList, ← List.cons_append, List.mem_append]

theorem mem_after {front : List Fault} {faults : Faults} :
    fault ∈ (faults.after front).toList ↔ fault ∈ front ∨ fault ∈ faults.toList := by
  cases front with
  | nil => simp [after]
  | cons first rest => simp [after, toList, or_assoc]

end Faults

namespace Reading

variable {α β : Type} {fault : Fault}

/-- A reading that ends with a fault, perhaps among others. -/
def Finds (reading : Reading α) (fault : Fault) : Prop :=
  ∃ faults, reading = .error faults ∧ fault ∈ faults.toList

@[simp] theorem not_finds_ok (value : α) : ¬ Finds (.ok value) fault := nofun

@[simp] theorem not_finds_pure (value : α) : ¬ Finds (pure value) fault := nofun

@[simp] theorem finds_error_iff {faults : Faults} :
    Finds (.error faults : Reading α) fault ↔ fault ∈ faults.toList := by
  refine ⟨fun ⟨_, same, member⟩ => ?_, fun member => ⟨faults, rfl, member⟩⟩
  cases same
  exact member

@[simp] theorem finds_fail_iff {other : Fault} :
    Finds (fail other : Reading α) fault ↔ fault = other := by
  constructor
  · rintro ⟨faults, same, member⟩
    cases same
    exact List.mem_singleton.1 member
  · rintro rfl
    exact ⟨_, rfl, List.mem_singleton_self _⟩

/-- Of two parts, the second is read only after the first was right. -/
theorem finds_bind_iff {first : Reading α} {next : α → Reading β} :
    Finds (first >>= next) fault ↔
      Finds first fault ∨ ∃ value, first = .ok value ∧ Finds (next value) fault := by
  cases first with
  | ok value =>
    refine ⟨fun found => .inr ⟨value, rfl, found⟩, fun found => ?_⟩
    rcases found with found | ⟨_, ⟨⟩, found⟩
    · exact absurd found (not_finds_ok value)
    · exact found
  | error faults =>
    refine ⟨fun ⟨_, same, member⟩ => ?_, fun found => ?_⟩
    · cases same
      exact .inl ⟨faults, rfl, member⟩
    · rcases found with ⟨_, ⟨⟩, member⟩ | ⟨_, ⟨⟩, -⟩
      exact ⟨faults, rfl, member⟩

theorem finds_bind_of_ok {first : Reading α} {next : α → Reading β} {value : α}
    (h : first = .ok value) : Finds (first >>= next) fault ↔ Finds (next value) fault := by
  rw [h]
  rfl

/-- All items of a list are read. -/
theorem finds_cons_iff {head : Reading α} {tail : Reading (List α)} :
    Finds (head.cons tail) fault ↔ Finds head fault ∨ Finds tail fault := by
  cases head with
  | ok value =>
    cases tail with
    | ok rest => simp [Finds, cons]
    | error faults => simp [Finds, cons]
  | error faults =>
    cases tail with
    | ok rest => simp [Finds, cons]
    | error more => simp [Finds, cons, Faults.mem_append]

theorem finds_map_iff {first : Reading α} {f : α → β} :
    Finds (first >>= fun value => pure (f value)) fault ↔ Finds first fault := by
  rw [finds_bind_iff]
  refine ⟨fun found => ?_, .inl⟩
  rcases found with found | ⟨value, -, found⟩
  · exact found
  · exact absurd found (not_finds_pure _)

end Reading

namespace Step

open Reading (Finds)

/-! ## Paths -/

/-- A path goes on where another ends. -/
def Extends (path place : String) : Prop := path.toList <+: place.toList

theorem Extends.refl (path : String) : Extends path path := List.prefix_rfl

theorem Extends.trans {a b c : String} (first : Extends a b) (second : Extends b c) :
    Extends a c :=
  List.IsPrefix.trans first second

theorem extends_append (path more : String) : Extends path (path ++ more) := by
  rw [Extends, String.toList_append]
  exact List.prefix_append _ _

theorem extends_itemPath (path : String) (i : Nat) : Extends path (itemPath path i) := by
  rw [itemPath, String.append_assoc, String.append_assoc]
  exact extends_append _ _

/-- Paths through names of one length part where the names do. -/
theorem Extends.name_eq {path a b place : String} (first : Extends (path ++ a) place)
    (second : Extends (path ++ b) place) (same : a.length = b.length) : a = b := by
  have length : (path ++ a).toList.length = (path ++ b).toList.length := by
    rw [String.length_toList, String.length_toList, String.length_append, String.length_append,
      same]
  have := (List.prefix_of_prefix_length_le first second (Nat.le_of_eq length)).eq_of_length length
  exact (String.append_right_inj path).1 (String.toList_inj.1 this)

/-- Paths through different items of a list part. -/
theorem Extends.index_eq {path place : String} {i j : Nat} (first : Extends (itemPath path i) place)
    (second : Extends (itemPath path j) place) : i = j := by
  have split (n : Nat) : (itemPath path n).toList =
      path.toList ++ '[' :: ((toString n).toList ++ [']']) := by
    simp [itemPath, String.toList_append, List.append_assoc]
  have digits (n : Nat) : ∀ c ∈ (toString n).toList, c ≠ ']' := by
    rintro c member rfl
    exact absurd (isNameChar_of_mem_toString member) (by decide)
  obtain ⟨more, hi⟩ := first
  obtain ⟨rest, hj⟩ := second
  rw [← hj, split, split] at hi
  simp only [List.append_assoc, List.cons_append, List.append_cancel_left_eq, List.cons.injEq,
    true_and, List.nil_append] at hi
  -- Both numbers end at the first bracket.
  have cut (n : Nat) (back : List Char) :
      ((toString n).toList ++ ']' :: back).takeWhile (· ≠ ']') = (toString n).toList := by
    rw [List.takeWhile_append_of_pos (by simpa using digits n)]
    simp
  have := congrArg (List.takeWhile (· ≠ ']')) hi
  rw [cut, cut] at this
  exact Nat.repr_injective (String.toList_inj.1 this)

/-! ## What a step refuses -/

/-- All steps that a reading refuses stand at a path or below it. -/
def Under {α : Type} (path : String) (reading : Reading α) : Prop :=
  ∀ place reason, Finds reading (.invalidStep place reason) → Extends path place

/-- What is refused at a path or below it: a step that stands there, or an id that is none. -/
inductive Refusal (path : String) : Fault → Prop
  | step {place reason : String} (above : Extends path place) :
      Refusal path (.invalidStep place reason)
  | id {id reason : String} : Refusal path (.invalidId id reason)

/-- Whatever a reading finds is refused at a path or below it. -/
def Refuses {α : Type} (path : String) (reading : Reading α) : Prop :=
  ∀ fault, Finds reading fault → Refusal path fault

theorem Refuses.under {α : Type} {path : String} {reading : Reading α} (h : Refuses path reading) :
    Under path reading := by
  intro place reason found
  cases h _ found with
  | step above => exact above

section

variable {α β : Type} {path place reason : String} {members inner : Table Json} {name : String}

@[simp] theorem refuses_ok (value : α) : Refuses path (.ok value) :=
  fun _ found => absurd found (Reading.not_finds_ok value)

@[simp] theorem refuses_pure (value : α) : Refuses path (pure value : Reading α) := refuses_ok value

theorem refuses_refuse (h : Extends path place) :
    Refuses path (refuse place reason : Reading α) := by
  intro fault found
  cases Reading.finds_fail_iff.1 found
  exact .step h

@[simp] theorem refuses_refuse_self : Refuses path (refuse path reason : Reading α) :=
  refuses_refuse (.refl path)

theorem Refuses.bind {first : Reading α} {next : α → Reading β} (hfirst : Refuses path first)
    (hnext : ∀ value, Refuses path (next value)) : Refuses path (first >>= next) := by
  intro fault found
  rcases Reading.finds_bind_iff.1 found with found | ⟨value, -, found⟩
  · exact hfirst fault found
  · exact hnext value fault found

theorem Refuses.cons {head : Reading α} {tail : Reading (List α)} (hhead : Refuses path head)
    (htail : Refuses path tail) : Refuses path (head.cons tail) := by
  intro fault found
  rcases Reading.finds_cons_iff.1 found with found | found
  · exact hhead fault found
  · exact htail fault found

theorem Refuses.of_extends {longer : String} {reading : Reading α} (h : Refuses longer reading)
    (above : Extends path longer) : Refuses path reading := by
  intro fault found
  cases h fault found with
  | step below => exact .step (above.trans below)
  | id => exact .id

@[simp] theorem refuses_keyword : Refuses path (keyword path members) := by
  unfold keyword
  split <;> simp

@[simp] theorem refuses_ownId : Refuses path (ownId path members) := by
  unfold ownId
  split
  · simp
  · next id _ =>
    -- An id that is none is not refused as a step, but as an id.
    intro fault found
    unfold checkId at found
    split at found
    · exact absurd found (Reading.not_finds_ok _)
    · next other same =>
      split at same
      · cases same
      · cases same
        cases Reading.finds_fail_iff.1 found
        exact .id
  · simp

@[simp] theorem refuses_tags : Refuses path (tags path members) := by
  unfold tags
  split <;> simp

theorem refuses_head : Refuses path (head path members) :=
  refuses_ownId.bind fun _ => refuses_tags.bind fun _ => refuses_pure _

@[simp] theorem refuses_flag {default : Bool} : Refuses path (flag path members name default) := by
  unfold flag
  split <;> simp

@[simp] theorem refuses_size : Refuses path (size path members name) := by
  unfold size
  split
  · simp
  · simp
  · split <;> simp

@[simp] theorem refuses_duration : Refuses path (duration path members name) := by
  unfold duration
  split
  · simp
  · simp
  · split
    · simp
    · split <;> simp

@[simp] theorem refuses_retries : Refuses path (retries path members) := by
  unfold retries
  split
  · simp
  · split
    · split <;> simp
    · simp

@[simp] theorem refuses_tools : Refuses path (tools path members) := by
  unfold tools
  split
  · simp
  · simp
  · simp
  · split <;> simp
  · simp

@[simp] theorem refuses_parameters : Refuses path (parameters path members) := by
  unfold parameters
  split <;> simp

theorem refuses_taskSpec : Refuses path (taskSpec path members) := by
  unfold taskSpec
  split
  · exact refuses_tools.bind fun _ => refuses_parameters.bind fun _ => refuses_retries.bind fun _ =>
      refuses_duration.bind fun _ => refuses_pure _
  · simp

theorem refuses_parallelSpec : Refuses path (parallelSpec path members) :=
  refuses_size.bind fun _ => refuses_flag.bind fun _ => refuses_flag.bind fun _ => refuses_pure _

@[simp] theorem refuses_branchCondition : Refuses path (branchCondition path members) := by
  unfold branchCondition
  split <;> simp

@[simp] theorem refuses_block : Refuses path (block path members name) := by
  unfold block
  split <;> simp

@[simp] theorem refuses_blockCondition : Refuses path (blockCondition path members inner name) := by
  unfold blockCondition
  split <;> simp

theorem refuses_loopSpec : Refuses path (loopSpec path members inner) :=
  refuses_blockCondition.bind fun _ => refuses_size.bind fun _ => refuses_flag.bind fun _ => refuses_pure _

theorem refuses_waitSpec : Refuses path (waitSpec path members) :=
  refuses_block.bind fun _ => refuses_blockCondition.bind fun _ => refuses_duration.bind fun _ =>
    refuses_duration.bind fun _ => refuses_pure _

end

/-- Smaller values are refused below their paths. -/
def RefusesBelow (size : Nat) : Prop :=
  ∀ item, sizeOf item < size → ∀ path, Refuses path (read path item)

section

variable {members inner : Table Json} {json : Json} {items : List Json} {path name : String}

theorem refuses_readAll (each : ∀ item ∈ items, ∀ path, Refuses path (read path item)) (i : Nat) :
    Refuses path (readAll path i items) := by
  induction items generalizing i with
  | nil =>
    rw [readAll]
    exact refuses_ok _
  | cons item rest ih =>
    rw [List.forall_mem_cons] at each
    rw [readAll]
    exact ((each.1 _).of_extends (extends_itemPath path i)).cons (ih each.2 _)

theorem refuses_readNested (each : RefusesBelow (sizeOf json + 1)) :
    Refuses path (readNested path json) := by
  unfold readNested
  split
  · next items =>
    refine refuses_readAll (fun item member => each item ?_) 0
    have := List.sizeOf_lt_of_mem member
    simp only [Json.arr.sizeOf_spec]
    omega
  · next members =>
    exact ((each _ (Nat.lt_succ_self _) _).of_extends (extends_itemPath path 0)).bind
      fun _ => refuses_pure _
  · exact refuses_refuse_self

theorem refuses_readBranch (each : RefusesBelow (sizeOf json + 1)) :
    Refuses path (readBranch path json) := by
  unfold readBranch
  split
  · exact refuses_refuse_self
  · next items _ =>
    refine refuses_readAll (fun item member => each item ?_) 0
    have := List.sizeOf_lt_of_mem member
    simp only [Json.arr.sizeOf_spec]
    omega
  · exact (each _ (Nat.lt_succ_self _) _).bind fun _ => refuses_pure _
  · exact refuses_refuse_self

theorem RefusesBelow.of_find? (each : RefusesBelow (sizeOf members))
    (found : Table.find? members name = some json) : RefusesBelow (sizeOf json + 1) := by
  intro item smaller
  have := sizeOf_find? found
  exact each item (by omega)

theorem refuses_readUnder (each : RefusesBelow (sizeOf members)) :
    Refuses (path ++ "." ++ name) (readUnder path members name) := by
  unfold readUnder
  split
  · next json found => exact refuses_readNested (each.of_find? found)
  · exact refuses_refuse_self

theorem refuses_readBody (each : RefusesBelow (sizeOf members)) :
    Refuses path (readBody path members) := by
  unfold readBody
  split
  · next json found =>
    exact (refuses_readNested (each.of_find? found)).of_extends (extends_append _ _)
  · exact refuses_refuse_self

theorem refuses_readThen (each : RefusesBelow (sizeOf members)) :
    Refuses path (readThen path members) := by
  unfold readThen
  split
  · next json found =>
    exact (refuses_readBranch (each.of_find? found)).of_extends (extends_append _ _)
  · exact refuses_refuse_self

/-- A condition without a branch for true is itself at fault. -/
theorem place_of_readThen (each : RefusesBelow (sizeOf members)) {place reason : String}
    (found : Finds (readThen path members) (.invalidStep place reason)) :
    place = path ∨ Extends (path ++ ".then") place := by
  unfold readThen at found
  split at found
  · next json here =>
    exact .inr ((refuses_readBranch (each.of_find? here)).under place reason found)
  · cases Reading.finds_fail_iff.1 found
    exact .inl rfl

theorem refuses_readElse (each : RefusesBelow (sizeOf members)) :
    Refuses (path ++ ".else") (readElse path members) := by
  unfold readElse
  split
  · exact refuses_ok _
  · exact refuses_ok _
  · next json _ found => exact refuses_readBranch (each.of_find? found)

theorem refuses_readLoop {head : StepHead} (each : RefusesBelow (sizeOf members)) :
    Refuses path (readLoop path members head) := by
  unfold readLoop
  split
  · next inner found =>
    have smaller := sizeOf_find?_obj found
    refine refuses_loopSpec.bind fun _ => Refuses.bind ?_ fun _ => refuses_pure _
    exact refuses_readBody fun item less => each item (Nat.lt_trans less smaller)
  · exact refuses_loopSpec.bind fun _ => (refuses_readBody each).bind fun _ => refuses_pure _
  · exact refuses_refuse_self

end

/-- Whatever a step refuses stands at its path or below it. -/
theorem refuses_read (json : Json) (path : String) : Refuses path (read path json) := by
  cases json with
  | obj members =>
    have each : RefusesBelow (sizeOf members) := fun item smaller path => refuses_read item path
    have nested (name : String) : Refuses path (readUnder path members name) := by
      refine (refuses_readUnder each).of_extends ?_
      rw [String.append_assoc]
      exact extends_append _ _
    unfold read
    refine refuses_keyword.bind fun keyword => refuses_head.bind fun head => ?_
    split
    · exact refuses_taskSpec.bind fun _ => refuses_pure _
    · split
      · exact (nested _).bind fun _ => refuses_pure _
      · split
        · exact refuses_parallelSpec.bind fun _ => (nested _).bind fun _ => refuses_pure _
        · split
          · refine refuses_branchCondition.bind fun _ => (refuses_readThen each).bind fun _ => ?_
            exact ((refuses_readElse each).of_extends (extends_append _ _)).bind fun _ => refuses_pure _
          · split
            · exact refuses_readLoop each
            · exact refuses_waitSpec.bind fun _ => refuses_pure _
  | _ =>
    unfold read
    exact refuses_refuse_self
termination_by sizeOf json
decreasing_by
  subst_vars
  simp only [Json.obj.sizeOf_spec] at *
  omega

theorem under_read (json : Json) (path : String) : Under path (read path json) :=
  (refuses_read json path).under

/-! ## Steps inside steps -/

/-- The steps that a value holds, with their paths: those of a list, or the one that it is. -/
inductive Held (path lone : String) : Json → String → Json → Prop
  | item {items : List Json} {i : Nat} {json : Json} (h : items[i]? = some json) :
      Held path lone (.arr items) (itemPath path i) json
  | alone {members : Table Json} : Held path lone (.obj members) lone (.obj members)

/-- The steps that stand directly in a step by its keyword, with their paths, where nothing is wrong
with the fields of this step itself. They are read, with one exception: the steps for false of a
condition are read only after those for true. -/
inductive Child (path : String) (members : Table Json) : String → Bool → String → Json → Prop
  | sequence {whole json : Json} {place : String}
      (found : Table.find? members "sequence" = some whole)
      (held : Held (path ++ "." ++ "sequence") (itemPath (path ++ "." ++ "sequence") 0) whole
        place json) :
      Child path members "sequence" true place json
  | parallel {spec : ParallelSpec} {whole json : Json} {place : String}
      (hspec : parallelSpec path members = .ok spec)
      (found : Table.find? members "parallel" = some whole)
      (held : Held (path ++ "." ++ "parallel") (itemPath (path ++ "." ++ "parallel") 0) whole
        place json) :
      Child path members "parallel" true place json
  | onTrue {text place : String} {whole json : Json}
      (htext : branchCondition path members = .ok text)
      (found : Table.find? members "then" = some whole)
      (held : Held (path ++ ".then") (path ++ ".then") whole place json) :
      Child path members "if" true place json
  | onFalse {text place : String} {whole json : Json}
      (htext : branchCondition path members = .ok text)
      (found : Table.find? members "else" = some whole)
      (held : Held (path ++ ".else") (path ++ ".else") whole place json) :
      Child path members "if" (readThen path members).isOk place json
  | loopBlock {inner : Table Json} {spec : LoopSpec} {whole json : Json} {place : String}
      (block : Table.find? members "loop" = some (.obj inner))
      (hspec : loopSpec path members inner = .ok spec)
      (found : Table.find? inner "body" = some whole)
      (held : Held (path ++ ".body") (itemPath (path ++ ".body") 0) whole place json) :
      Child path members "loop" true place json
  | loopText {text place : String} {spec : LoopSpec} {whole json : Json}
      (block : Table.find? members "loop" = some (.str text))
      (hspec : loopSpec path members members = .ok spec)
      (found : Table.find? members "body" = some whole)
      (held : Held (path ++ ".body") (itemPath (path ++ ".body") 0) whole place json) :
      Child path members "loop" true place json

/-- The steps at any depth in a step, itself among them, such that nothing is wrong with the steps
around them but what they hold. The mark tells whether all branches on the way are read. -/
inductive Within : String → Json → Bool → String → Json → Prop
  | self {path : String} {json : Json} : Within path json true path json
  | child {path name next place : String} {members : Table Json} {head : StepHead}
      {json inner : Json} {direct seen : Bool} (one : keyword path members = .ok name)
      (hhead : Step.head path members = .ok head) (step : Child path members name direct next json)
      (rest : Within next json seen place inner) :
      Within path (.obj members) (direct && seen) place inner

/-- The steps at any depth in a list of steps. -/
def Reached (steps : List Json) (seen : Bool) (place : String) (json : Json) : Prop :=
  ∃ i step, steps[i]? = some step ∧ Within (itemPath "steps" i) step seen place json

/-- A value that is no step at all, or not clearly one, and the reason given for it. -/
inductive Malformed : Json → String → Prop
  | notObject {json : Json} (h : ∀ members, json ≠ .obj members) :
      Malformed json "step must be a mapping"
  | noKeyword {members : Table Json} (h : keywords.filter (Table.contains members) = []) :
      Malformed (.obj members) ("expected one of: " ++ ", ".intercalate keywords)
  | manyKeywords {members : Table Json} {first second : String} {rest : List String}
      (h : keywords.filter (Table.contains members) = first :: second :: rest) :
      Malformed (.obj members)
        ("ambiguous step: " ++ " + ".intercalate (first :: second :: rest))

section

variable {path lone place next name reason : String} {members : Table Json} {json whole : Json}
  {items : List Json}

theorem Held.extends (held : Held path lone whole next json) (h : Extends path lone) :
    Extends path next := by
  cases held with
  | item => exact extends_itemPath _ _
  | alone => exact h

theorem Malformed.read_eq (h : Malformed json reason) : read path json = refuse path reason := by
  cases h with
  | notObject h =>
    cases json with
    | obj members => exact absurd rfl (h members)
    | _ => rw [read]; simp
  | noKeyword h =>
    rw [read, keyword, h]
    rfl
  | manyKeywords h =>
    rw [read, keyword, h]
    rfl

theorem readUnder_of_find? (h : Table.find? members name = some whole) :
    readUnder path members name = readNested (path ++ "." ++ name) whole := by
  rw [readUnder_eq, h]

theorem readBody_of_find? (h : Table.find? members "body" = some whole) :
    readBody path members = readNested (path ++ ".body") whole := by
  rw [readBody_eq, h]

theorem readThen_of_find? (h : Table.find? members "then" = some whole) :
    readThen path members = readBranch (path ++ ".then") whole := by
  rw [readThen_eq, h]

theorem readElse_of_held (h : Table.find? members "else" = some whole)
    (held : Held path lone whole next json) :
    readElse place members = readBranch (place ++ ".else") whole := by
  rw [readElse_eq, h]
  cases held <;> rfl

theorem readLoop_of_obj {inner : Table Json} {head : StepHead} {spec : LoopSpec}
    (h : Table.find? members "loop" = some (.obj inner))
    (hspec : loopSpec path members inner = .ok spec) :
    readLoop path members head = do return .loop head spec (← readBody path inner) := by
  rw [readLoop_eq, h]
  dsimp only
  rw [hspec]
  rfl

theorem readLoop_of_str {text : String} {head : StepHead} {spec : LoopSpec}
    (h : Table.find? members "loop" = some (.str text))
    (hspec : loopSpec path members members = .ok spec) :
    readLoop path members head = do return .loop head spec (← readBody path members) := by
  rw [readLoop_eq, h]
  dsimp only
  rw [hspec]
  rfl

end

/-! ## Locality -/

section

variable {path place next name reason : String} {members : Table Json} {json whole inner : Json}
  {items : List Json} {i j : Nat} {direct seen : Bool}

theorem exists_item_of_finds (found : Finds (readAll path i items) (.invalidStep place reason)) :
    ∃ k, i ≤ k ∧ Extends (itemPath path k) place := by
  induction items generalizing i with
  | nil =>
    rw [readAll] at found
    exact absurd found (Reading.not_finds_ok _)
  | cons item rest ih =>
    rw [readAll, Reading.finds_cons_iff] at found
    rcases found with found | found
    · exact ⟨i, Nat.le_refl i, under_read item _ place reason found⟩
    · obtain ⟨k, later, above⟩ := ih found
      exact ⟨k, by omega, above⟩

/-- Of the faults of a list, those below an item are the faults of this item. -/
theorem finds_readAll_iff (h : items[j]? = some json)
    (below : Extends (itemPath path (i + j)) place) :
    Finds (readAll path i items) (.invalidStep place reason) ↔
      Finds (read (itemPath path (i + j)) json) (.invalidStep place reason) := by
  induction items generalizing i j with
  | nil => simp at h
  | cons item rest ih =>
    rw [readAll, Reading.finds_cons_iff]
    cases j with
    | zero =>
      cases Option.some.inj h
      refine ⟨fun found => ?_, .inl⟩
      rcases found with found | found
      · exact found
      · obtain ⟨k, later, above⟩ := exists_item_of_finds found
        have := above.index_eq below
        omega
    | succ j =>
      have shift : i + (j + 1) = (i + 1) + j := by omega
      rw [shift] at below ⊢
      rw [← ih h below]
      refine ⟨fun found => ?_, .inr⟩
      rcases found with found | found
      · have := (under_read item _ place reason found).index_eq below
        omega
      · exact found

theorem finds_readNested_iff (held : Held path (itemPath path 0) whole next json)
    (below : Extends next place) :
    Finds (readNested path whole) (.invalidStep place reason) ↔
      Finds (read next json) (.invalidStep place reason) := by
  cases held with
  | @item items i _ h =>
    rw [readNested]
    rw [← Nat.zero_add i] at below ⊢
    exact finds_readAll_iff h below
  | alone =>
    rw [readNested]
    exact Reading.finds_map_iff

theorem finds_readBranch_iff (held : Held path path whole next json)
    (below : Extends next place) :
    Finds (readBranch path whole) (.invalidStep place reason) ↔
      Finds (read next json) (.invalidStep place reason) := by
  cases held with
  | @item items i _ h =>
    cases items with
    | nil => simp at h
    | cons first rest =>
      rw [readBranch]
      · rw [← Nat.zero_add i] at below ⊢
        exact finds_readAll_iff h below
      · simp
  | alone =>
    rw [readBranch]
    exact Reading.finds_map_iff

theorem Child.extends (child : Child path members name direct next json) : Extends path next := by
  have under (name : String) : Extends path (path ++ "." ++ name) :=
    (extends_append path ".").trans (extends_append _ name)
  cases child with
  | sequence _ held => exact (under _).trans (held.extends (extends_itemPath _ 0))
  | parallel _ _ held => exact (under _).trans (held.extends (extends_itemPath _ 0))
  | onTrue _ _ held => exact (extends_append _ _).trans (held.extends (.refl _))
  | onFalse _ _ held => exact (extends_append _ _).trans (held.extends (.refl _))
  | loopBlock _ _ _ held => exact (extends_append _ _).trans (held.extends (extends_itemPath _ 0))
  | loopText _ _ _ held => exact (extends_append _ _).trans (held.extends (extends_itemPath _ 0))

/-- Nothing below the branch for false stands below the branch for true as well. -/
theorem not_extends_branches (yes : Extends (path ++ ".then") place)
    (no : Extends (path ++ ".else") place) : False :=
  absurd (yes.name_eq no (by decide)) (by decide)

/-- No fault of the branch for true stands below the branch for false. -/
theorem not_finds_readThen (no : Extends (path ++ ".else") place) :
    ¬ Finds (readThen path members) (.invalidStep place reason) := by
  intro hit
  rcases place_of_readThen (fun item _ => refuses_read item) hit with rfl | yes
  · have longer := no.length_le
    have five : ".else".length = 5 := rfl
    rw [String.length_toList, String.length_toList, String.length_append] at longer
    omega
  · exact not_extends_branches yes no

/-- No fault of the branch for false stands below the branch for true. -/
theorem not_finds_readElse (yes : Extends (path ++ ".then") place) :
    ¬ Finds (readElse path members) (.invalidStep place reason) := fun hit =>
  not_extends_branches yes ((refuses_readElse (fun item _ => refuses_read item)).under _ _ hit)

/-- Of the faults of a step, those below a step in it are the faults of this one, if it is read;
else there are none. -/
theorem finds_child_iff {head : StepHead} (one : keyword path members = .ok name)
    (hhead : Step.head path members = .ok head)
    (child : Child path members name direct next json) (below : Extends next place) :
    Finds (read path (.obj members)) (.invalidStep place reason) ↔
      direct = true ∧ Finds (read next json) (.invalidStep place reason) := by
  rw [read_of_keyword one hhead]
  cases child with
  | sequence found held =>
    rw [and_iff_right (rfl : true = true), ← finds_readNested_iff held below, ← readUnder_of_find? found]
    exact Reading.finds_map_iff
  | parallel hspec found held =>
    rw [and_iff_right (rfl : true = true), ← finds_readNested_iff held below, ← readUnder_of_find? found]
    exact (Reading.finds_bind_of_ok hspec).trans Reading.finds_map_iff
  | onTrue htext found held =>
    rw [and_iff_right (rfl : true = true), ← finds_readBranch_iff held below, ← readThen_of_find? found]
    refine (Reading.finds_bind_of_ok htext).trans (Reading.finds_bind_iff.trans ?_)
    refine ⟨fun hit => ?_, .inl⟩
    rcases hit with hit | ⟨yes, -, hit⟩
    · exact hit
    · exact absurd (Reading.finds_map_iff.1 hit)
        (not_finds_readElse ((held.extends (.refl _)).trans below))
  | onFalse htext found held =>
    rw [← finds_readBranch_iff held below, ← readElse_of_held found held]
    refine (Reading.finds_bind_of_ok htext).trans (Reading.finds_bind_iff.trans ?_)
    constructor
    · rintro (hit | ⟨yes, right, hit⟩)
      · exact absurd hit (not_finds_readThen ((held.extends (.refl _)).trans below))
      · exact ⟨by rw [right]; rfl, Reading.finds_map_iff.1 hit⟩
    · rintro ⟨right, hit⟩
      cases yes : readThen path members with
      | ok steps => exact .inr ⟨steps, rfl, Reading.finds_map_iff.2 hit⟩
      | error faults =>
        rw [yes] at right
        cases right
  | loopBlock block hspec found held =>
    rw [and_iff_right (rfl : true = true), ← finds_readNested_iff held below, ← readBody_of_find? found]
    refine .trans (iff_of_eq (congrArg (Finds · _) (readLoop_of_obj block hspec))) ?_
    exact Reading.finds_map_iff
  | loopText block hspec found held =>
    rw [and_iff_right (rfl : true = true), ← finds_readNested_iff held below, ← readBody_of_find? found]
    refine .trans (iff_of_eq (congrArg (Finds · _) (readLoop_of_str block hspec))) ?_
    exact Reading.finds_map_iff

theorem Within.extends (h : Within path json seen place inner) : Extends path place := by
  induction h with
  | self => exact .refl _
  | child _ _ step _ ih => exact step.extends.trans ih

theorem finds_within_iff (h : Within path json seen place inner) :
    Finds (read path json) (.invalidStep place reason) ↔
      seen = true ∧ Finds (read place inner) (.invalidStep place reason) := by
  induction h with
  | self => simp
  | child one hhead step rest ih =>
    rw [finds_child_iff one hhead step rest.extends, ih, Bool.and_eq_true, and_assoc]

/-- The ids given twice come on top of the faults of the steps. -/
theorem finds_parse_iff {steps : List Json} :
    Finds (parse steps) (.invalidStep place reason) ↔
      Finds (readAll "steps" 0 steps) (.invalidStep place reason) := by
  have other : .invalidStep place reason ∉ (repeats [] (reservedAll steps)).map Fault.duplicateId := by
    simp
  unfold parse
  dsimp only
  generalize (repeats [] (reservedAll steps)).map Fault.duplicateId = duplicates at other ⊢
  cases readAll "steps" 0 steps with
  | ok read =>
    refine iff_of_false ?_ (Reading.not_finds_ok read)
    cases duplicates with
    | nil => cases read <;> simp
    | cons duplicate more =>
      rintro ⟨_, ⟨⟩, member⟩
      exact other member
  | error faults =>
    rw [Reading.finds_error_iff]
    cases duplicates with
    | nil => exact Reading.finds_error_iff
    | cons duplicate more =>
      exact Reading.finds_error_iff.trans (Faults.mem_after.trans (or_iff_right other))

end

/-! ## What a list of steps is refused for -/

/-- A fault of a list of steps: there is nothing to read, a step is none or has an id that is none,
or an id is given twice. -/
inductive Blameworthy : Fault → Prop
  | unreadable {details : String} : Blameworthy (.unreadable details)
  | step {place reason : String} : Blameworthy (.invalidStep place reason)
  | id {id reason : String} : Blameworthy (.invalidId id reason)
  | duplicate {id : String} : Blameworthy (.duplicateId id)

theorem Refusal.blameworthy {path : String} {fault : Fault} (h : Refusal path fault) :
    Blameworthy fault := by
  cases h with
  | step => exact .step
  | id => exact .id

/-- A list of steps is refused for nothing else. -/
theorem blameworthy_of_finds {steps : List Json} {fault : Fault}
    (found : Finds (parse steps) fault) :
    Blameworthy fault := by
  have twice : ∀ other ∈ (repeats [] (reservedAll steps)).map Fault.duplicateId,
      Blameworthy other := by
    intro other member
    obtain ⟨id, -, rfl⟩ := List.mem_map.1 member
    exact .duplicate
  have refused : ∀ other, Finds (readAll "steps" 0 steps) other → Blameworthy other := fun other h =>
    (refuses_readAll (fun item _ path => refuses_read item path) 0 other h).blameworthy
  unfold parse at found
  dsimp only at found
  generalize (repeats [] (reservedAll steps)).map Fault.duplicateId = duplicates at twice found
  cases h : readAll "steps" 0 steps with
  | ok read =>
    rw [h] at found
    cases duplicates with
    | nil =>
      cases read with
      | nil =>
        cases Reading.finds_fail_iff.1 found
        exact .unreadable
      | cons => exact absurd found (Reading.not_finds_ok _)
    | cons duplicate more => exact twice fault (Reading.finds_error_iff.1 found)
  | error faults =>
    rw [h] at found refused
    have member : fault ∈ (faults.after duplicates).toList := by
      cases duplicates <;> exact Reading.finds_error_iff.1 found
    rcases Faults.mem_after.1 member with own | own
    · exact twice fault own
    · exact refused fault (Reading.finds_error_iff.2 own)

/-- So is the one fault that stands for all of them. -/
theorem blameworthy_collapse {steps : List Json} {faults : Faults}
    (refused : parse steps = .error faults) : Blameworthy faults.collapse := by
  unfold Faults.collapse
  split
  · have found : Finds (parse steps) faults.first := by
      rw [refused]
      exact Reading.finds_error_iff.2 List.mem_cons_self
    exact blameworthy_of_finds found
  · exact .unreadable

/-! ## Lists that are read -/

section

variable {path place next name reason : String} {members : Table Json} {json whole inner : Json}
  {items : List Json} {read : List Step} {i j : Nat} {direct seen : Bool}

theorem exists_of_readAll (h : readAll path i items = .ok read) (item : items[j]? = some json) :
    ∃ step, Step.read (itemPath path (i + j)) json = .ok step := by
  induction items generalizing i j read with
  | nil => simp at item
  | cons first rest ih =>
    rw [readAll] at h
    obtain ⟨step, more, hstep, hmore, -⟩ := Reading.cons_ok h
    cases j with
    | zero =>
      cases Option.some.inj item
      exact ⟨step, hstep⟩
    | succ j =>
      have shift : i + (j + 1) = (i + 1) + j := by omega
      rw [shift]
      exact ih hmore item

theorem exists_of_readNested (held : Held path (itemPath path 0) whole next json)
    (h : readNested path whole = .ok read) : ∃ step, Step.read next json = .ok step := by
  cases held with
  | @item items i _ item =>
    rw [readNested] at h
    rw [← Nat.zero_add i]
    exact exists_of_readAll h item
  | alone =>
    rw [readNested] at h
    obtain ⟨step, hstep, -⟩ := Reading.bind_ok h
    exact ⟨step, hstep⟩

theorem exists_of_readBranch (held : Held path path whole next json)
    (h : readBranch path whole = .ok read) : ∃ step, Step.read next json = .ok step := by
  cases held with
  | @item items i _ item =>
    cases items with
    | nil => simp at item
    | cons first rest =>
      rw [readBranch] at h
      · rw [← Nat.zero_add i]
        exact exists_of_readAll h item
      · simp
  | alone =>
    rw [readBranch] at h
    obtain ⟨step, hstep, -⟩ := Reading.bind_ok h
    exact ⟨step, hstep⟩

/-- A step that is read holds only steps that are read. -/
theorem exists_of_child {head : StepHead} {step : Step} (one : keyword path members = .ok name)
    (hhead : Step.head path members = .ok head)
    (child : Child path members name direct next json)
    (h : Step.read path (.obj members) = .ok step) : ∃ step, Step.read next json = .ok step := by
  rw [read_of_keyword one hhead] at h
  cases child with
  | sequence found held =>
    obtain ⟨steps, hsteps, -⟩ := Reading.bind_ok h
    exact exists_of_readNested held (readUnder_of_find? found ▸ hsteps)
  | parallel _ found held =>
    obtain ⟨_, -, h⟩ := Reading.bind_ok h
    obtain ⟨steps, hsteps, -⟩ := Reading.bind_ok h
    exact exists_of_readNested held (readUnder_of_find? found ▸ hsteps)
  | onTrue _ found held =>
    obtain ⟨_, -, h⟩ := Reading.bind_ok h
    obtain ⟨yes, hyes, -⟩ := Reading.bind_ok h
    exact exists_of_readBranch held (readThen_of_find? found ▸ hyes)
  | onFalse _ found held =>
    obtain ⟨_, -, h⟩ := Reading.bind_ok h
    obtain ⟨_, -, h⟩ := Reading.bind_ok h
    obtain ⟨no, hno, -⟩ := Reading.bind_ok h
    exact exists_of_readBranch held (readElse_of_held found held ▸ hno)
  | loopBlock block hspec found held =>
    obtain ⟨body, hbody, -⟩ := Reading.bind_ok ((readLoop_of_obj block hspec).symm.trans h)
    exact exists_of_readNested held (readBody_of_find? found ▸ hbody)
  | loopText block hspec found held =>
    obtain ⟨body, hbody, -⟩ := Reading.bind_ok ((readLoop_of_str block hspec).symm.trans h)
    exact exists_of_readNested held (readBody_of_find? found ▸ hbody)

theorem Within.exists_of_read (h : Within path json seen place inner) {step : Step}
    (read : Step.read path json = .ok step) : ∃ step, Step.read place inner = .ok step := by
  induction h generalizing step with
  | self => exact ⟨step, read⟩
  | child one hhead child _ ih =>
    obtain ⟨step, hstep⟩ := exists_of_child one hhead child read
    exact ih hstep

/-- A list with a malformed step anywhere is refused. -/
theorem Reached.refused {steps : List Json} (reached : Reached steps seen place json)
    (malformed : Malformed json reason) : ∃ faults, parse steps = .error faults := by
  cases h : parse steps with
  | error faults => exact ⟨faults, rfl⟩
  | ok root =>
    obtain ⟨i, step, item, within⟩ := reached
    obtain ⟨first, rest, -, hread, -⟩ := parse_ok h
    obtain ⟨top, htop⟩ := exists_of_readAll hread item
    rw [Nat.zero_add] at htop
    obtain ⟨step, hstep⟩ := within.exists_of_read htop
    cases malformed.read_eq.symm.trans hstep

end

/-- A list with a malformed step is refused. The step is reported at its path with its own reason,
and for nothing else, whatever other steps are wrong; or it is not reported at all, if it stands in
a branch for false and the branch for true is refused too. -/
theorem finds_malformed_iff {steps : List Json} {seen : Bool} {place reason : String} {json : Json}
    (reached : Reached steps seen place json) (malformed : Malformed json reason) :
    (∃ faults, parse steps = .error faults) ∧
      ∀ other, Finds (parse steps) (.invalidStep place other) ↔ seen = true ∧ other = reason := by
  refine ⟨reached.refused malformed, fun other => ?_⟩
  obtain ⟨i, step, item, within⟩ := reached
  rw [← Nat.zero_add i] at within
  calc Finds (parse steps) (.invalidStep place other)
    _ ↔ Finds (readAll "steps" 0 steps) (.invalidStep place other) := finds_parse_iff
    _ ↔ Finds (Step.read (itemPath "steps" (0 + i)) step) (.invalidStep place other) :=
      finds_readAll_iff item within.extends
    _ ↔ seen = true ∧ Finds (Step.read place json) (.invalidStep place other) :=
      finds_within_iff within
    _ ↔ seen = true ∧ other = reason := by
      rw [malformed.read_eq, refuse, Reading.finds_fail_iff, Fault.invalidStep.injEq,
        and_iff_right rfl]

/-- The fields of a condition with a malformed step for true and one for false. -/
def badBranches : Table Json :=
  [("else", .obj [("bad", .int 2)]), ("if", .str "x"), ("then", .obj [("bad", .int 1)])]

/-- The condition itself is right but for its branches. -/
theorem badBranches_own : keyword (itemPath "steps" 0) badBranches = .ok "if" ∧
    head (itemPath "steps" 0) badBranches = .ok ⟨none, []⟩ ∧
    branchCondition (itemPath "steps" 0) badBranches = .ok "x" :=
  ⟨by cbv, by cbv, by cbv⟩

theorem finds_malformed_iff_branches :
    Reached [.obj badBranches] true "steps[0].then" (.obj [("bad", .int 1)]) ∧
      Malformed (.obj [("bad", .int 1)]) ("expected one of: " ++ ", ".intercalate keywords) ∧
      (∃ faults, parse [.obj badBranches] = .error faults) ∧
      ∀ other, Finds (parse [.obj badBranches]) (.invalidStep "steps[0].then" other) ↔
        true = true ∧ other = "expected one of: " ++ ", ".intercalate keywords := by
  obtain ⟨one, hhead, htext⟩ := badBranches_own
  have found : Table.find? badBranches "then" = some (.obj [("bad", .int 1)]) := by cbv
  have within : Within (itemPath "steps" 0) (.obj badBranches) true "steps[0].then"
      (.obj [("bad", .int 1)]) := .child one hhead (.onTrue htext found .alone) .self
  have reached : Reached [.obj badBranches] true "steps[0].then" (.obj [("bad", .int 1)]) :=
    ⟨0, _, rfl, within⟩
  have malformed : Malformed (.obj [("bad", .int 1)]) _ := .noKeyword (by decide)
  exact ⟨reached, malformed, finds_malformed_iff reached malformed⟩

/-- Not all malformed steps are reported: the second branch is passed over in silence. -/
theorem not_all_malformed_found :
    ¬ ∀ (steps : List Json) (seen : Bool) (place reason : String) (json : Json),
      Reached steps seen place json → Malformed json reason →
        ∃ reason, Finds (parse steps) (.invalidStep place reason) := by
  intro all
  obtain ⟨one, hhead, htext⟩ := badBranches_own
  have found : Table.find? badBranches "else" = some (.obj [("bad", .int 2)]) := by cbv
  have within : Within (itemPath "steps" 0) (.obj badBranches)
      ((readThen (itemPath "steps" 0) badBranches).isOk && true) "steps[0].else"
      (.obj [("bad", .int 2)]) := .child one hhead (.onFalse htext found .alone) .self
  have unread : (readThen (itemPath "steps" 0) badBranches).isOk = false := by cbv
  rw [unread] at within
  have refused : parse [.obj badBranches] = .error ⟨.invalidStep "steps[0].then"
      "expected one of: task, sequence, parallel, if, loop, wait", []⟩ := by cbv
  obtain ⟨reason, found⟩ := all [.obj badBranches] _ _ _ _ ⟨0, _, rfl, within⟩
    (.noKeyword (by decide))
  rw [refused] at found
  simp [Finds, Faults.toList] at found

end Step

end Stepwise

import Stepwise.Node.Record
import Stepwise.Proofs.Node.Tree
import Stepwise.Proofs.Table

/-!
# Reading the records of trees

A record leaves out what is absent, and reading one puts back just that: a member that may be left
out has a default, and the writer leaves it out only where the value is this default. So reading
the record of a tree gives back the tree (`ofJson?_toJson`), whatever its kinds, ids and values.
-/

namespace Stepwise

/-- A value that is left out is not found, and another one is found as it is written. -/
theorem find?_optionalMember {α : Type} (name : String) (write : α → Json) (value : Option α)
    (key : String) :
    Table.find? (optionalMember name write value) key =
      if name = key then value.map write else none := by
  cases value with
  | none => exact (ite_self _).symm
  | some v => rfl

namespace Json

/-! ## Values -/

@[simp] theorem str?_str (text : String) : str? (.str text) = some text := rfl

theorem bool?_bool (b : Bool) : bool? (.bool b) = some b := rfl

theorem table?_obj (members : Table Json) : table? (.obj members) = some members := rfl

theorem natBelow?_of_lt {bound n : Nat} (h : n < bound) : natBelow? bound (.int n) = some n := by
  simp [natBelow?, h]

theorem uint32?_ofUInt32 (n : UInt32) : uint32? (ofUInt32 n) = some n := by
  rw [uint32?, ofUInt32, natBelow?_of_lt n.toNat_lt, Option.map_some, UInt32.ofNat_toNat]

theorem uint64?_ofUInt64 (n : UInt64) : uint64? (ofUInt64 n) = some n := by
  rw [uint64?, ofUInt64, natBelow?_of_lt n.toNat_lt, Option.map_some, UInt64.ofNat_toNat]

theorem str_ne_null (text : String) : Json.str text ≠ .null := nofun

theorem ofUInt64_ne_null (n : UInt64) : ofUInt64 n ≠ .null := nofun

theorem ofDuration_ne_null (d : Duration) : ofDuration d ≠ .null := nofun

theorem list?_ofTexts (texts : List String) : list? str? (ofTexts texts) = some texts := by
  rw [ofTexts, list?]
  induction texts with
  | nil => rfl
  | cons text rest ih => simp [ih]

namespace Fields

/-! ## Members -/

variable {α : Type} {fields : Fields} {name : String} {read : Json → Option α} {write : α → Json}

theorem required?_of_found {json : Json} {value : α}
    (found : Table.find? fields.members name = some json) (back : read json = some value) :
    fields.required? name read = some value := by
  rw [required?, found, Option.bind_some, back]

theorem defaulted?_of_found {json : Json} {value default : α}
    (found : Table.find? fields.members name = some json) (back : read json = some value) :
    fields.defaulted? name read default = some value := by
  rw [defaulted?, found]
  exact back

/-- What was left out is absent, and what was written is read back, unless it is written as null. -/
theorem optional?_of_found {value : Option α}
    (found : Table.find? fields.members name = value.map write)
    (back : ∀ a, read (write a) = some a) (other : ∀ a, write a ≠ .null) :
    fields.optional? name read = some value := by
  rw [optional?, defaulted?, found]
  cases value with
  | none => rfl
  | some a =>
    simp only [Option.map_some]
    unfold nullable?
    split
    · next null => exact absurd null (other a)
    · rw [back a, Option.map_some]

end Fields

/-! ## Durations -/

/-- How the seconds and the nanoseconds of an object with no other members become a duration. -/
theorem duration?_obj {members : Table Json} {secs nanos : Nat}
    (known : members.all (fun field => field.1 == "secs" || field.1 == "nanos"))
    (hsecs : Fields.required? ⟨members, false⟩ "secs" (natBelow? UInt64.size) = some secs)
    (hnanos : Fields.required? ⟨members, false⟩ "nanos" (natBelow? UInt32.size) = some nanos) :
    duration? (.obj members) =
      if secs * nanosPerSecond + nanos ≤ greatestNanos then
        some (Duration.ofNanos (secs * nanosPerSecond + nanos))
      else none := by
  -- Rewritten step by step: a check of the whole by computation would count the bounds in unary.
  have parts : duration? (.obj members) =
      (guard (members.all (fun field => field.1 == "secs" || field.1 == "nanos")) :
        Option Unit).bind fun _ =>
      (Fields.required? ⟨members, false⟩ "secs" (natBelow? UInt64.size)).bind fun secs =>
      (Fields.required? ⟨members, false⟩ "nanos" (natBelow? UInt32.size)).bind fun nanos =>
      if secs * nanosPerSecond + nanos ≤ greatestNanos then
        some (Duration.ofNanos (secs * nanosPerSecond + nanos))
      else none := rfl
  have only : (guard (members.all (fun field => field.1 == "secs" || field.1 == "nanos")) :
      Option Unit) = some () := by
    rw [guard, if_pos known]
    rfl
  rw [parts, only, hsecs, hnanos, Option.bind_some, Option.bind_some, Option.bind_some]

theorem duration?_ofDuration (d : Duration) : duration? (ofDuration d) = some d := by
  have secs : d.secs < UInt64.size :=
    (Nat.div_lt_iff_lt_mul (by decide)).2 (Nat.lt_of_le_sub_one (by decide) d.nanos_le)
  have nanos : d.subsecNanos < UInt32.size :=
    Nat.lt_trans (Nat.mod_lt _ (by decide)) (by decide : nanosPerSecond < UInt32.size)
  have whole : d.secs * nanosPerSecond + d.subsecNanos = d.nanos :=
    Nat.div_add_mod' d.nanos nanosPerSecond
  rw [ofDuration, duration?_obj rfl
    (Fields.required?_of_found (by simp [Table.find?]) (natBelow?_of_lt secs))
    (Fields.required?_of_found (by simp [Table.find?]) (natBelow?_of_lt nanos)), whole,
    if_pos d.nanos_le, Duration.ofNanos_nanos]

end Json

/-! ## Kinds -/

namespace Json.Fields

/-- The fields have the members of a list, and perhaps one that names the kind. -/
def Hold (fields : Fields) (members : List (String × Json)) : Prop :=
  ∀ name, name ≠ "type" → Table.find? fields.members name = Table.find? members name

end Json.Fields

namespace TaskSpec

theorem ofFields?_members {spec : TaskSpec} {fields : Json.Fields}
    (hold : fields.Hold spec.members) :
    ofFields? fields = some spec := by
  have task := hold "task" (by decide)
  have tools := hold "tools" (by decide)
  have parameters := hold "parameters" (by decide)
  have retries := hold "retry_count" (by decide)
  have timeout := hold "timeout" (by decide)
  have description := hold "description" (by decide)
  simp [members, Table.find?_append, find?_optionalMember, Table.find?]
    at task tools parameters retries timeout description
  rw [ofFields?, Json.Fields.required?_of_found task (Json.str?_str _),
    Json.Fields.defaulted?_of_found tools (Json.list?_ofTexts _),
    Json.Fields.defaulted?_of_found parameters (Json.table?_obj _),
    Json.Fields.defaulted?_of_found retries (Json.uint32?_ofUInt32 _),
    Json.Fields.optional?_of_found timeout Json.duration?_ofDuration Json.ofDuration_ne_null,
    Json.Fields.optional?_of_found description Json.str?_str Json.str_ne_null]
  rfl

end TaskSpec

namespace ParallelSpec

theorem ofFields?_members {spec : ParallelSpec} {fields : Json.Fields}
    (hold : fields.Hold spec.members) : ofFields? fields = some spec := by
  have limit := hold "max_concurrency" (by decide)
  have failFast := hold "fail_fast" (by decide)
  have waitForAll := hold "wait_for_all" (by decide)
  simp [members, Table.find?_append, find?_optionalMember, Table.find?] at limit failFast waitForAll
  rw [ofFields?, Json.Fields.optional?_of_found limit Json.uint64?_ofUInt64 Json.ofUInt64_ne_null,
    Json.Fields.required?_of_found failFast (Json.bool?_bool _),
    Json.Fields.required?_of_found waitForAll (Json.bool?_bool _)]
  rfl

end ParallelSpec

namespace LoopSpec

theorem ofFields?_members {spec : LoopSpec} {fields : Json.Fields}
    (hold : fields.Hold spec.members) :
    ofFields? fields = some spec := by
  have condition := hold "condition" (by decide)
  have most := hold "max_iterations" (by decide)
  have breakOnError := hold "break_on_error" (by decide)
  simp [members, find?_optionalMember, Table.find?] at condition most breakOnError
  rw [ofFields?, Json.Fields.required?_of_found condition (Json.str?_str _),
    Json.Fields.optional?_of_found most Json.uint64?_ofUInt64 Json.ofUInt64_ne_null,
    Json.Fields.required?_of_found breakOnError (Json.bool?_bool _)]
  rfl

end LoopSpec

namespace WaitSpec

theorem ofFields?_members {spec : WaitSpec} {fields : Json.Fields}
    (hold : fields.Hold spec.members) :
    ofFields? fields = some spec := by
  have condition := hold "condition" (by decide)
  have timeout := hold "timeout" (by decide)
  have interval := hold "poll_interval" (by decide)
  simp [members, Table.find?_append, find?_optionalMember, Table.find?] at condition timeout interval
  rw [ofFields?, Json.Fields.required?_of_found condition (Json.str?_str _),
    Json.Fields.optional?_of_found timeout Json.duration?_ofDuration Json.ofDuration_ne_null,
    Json.Fields.optional?_of_found interval Json.duration?_ofDuration Json.ofDuration_ne_null]
  rfl

end WaitSpec

namespace Kind

/-- The members of a kind are named apart, also from its own name. -/
theorem nodup_members (kind : Kind) (tag : Json) :
    ((("type", tag) :: kind.members).map Prod.fst).Nodup := by
  cases kind with
  | task spec =>
    rw [members, TaskSpec.members]
    cases spec.timeout <;> cases spec.description <;> simp [optionalMember]
  | sequence => simp [members]
  | parallel spec =>
    rw [members, ParallelSpec.members]
    cases spec.maxConcurrency <;> simp [optionalMember]
  | condition text => simp [members]
  | loop spec =>
    rw [members, LoopSpec.members]
    cases spec.maxIterations <;> simp [optionalMember]
  | wait spec =>
    rw [members, WaitSpec.members]
    cases spec.timeout <;> cases spec.pollInterval <;> simp [optionalMember]

theorem ofFields?_members {kind : Kind} {fields : Json.Fields} (hold : fields.Hold kind.members) :
    ofFields? kind.name fields = some kind := by
  cases kind with
  | task spec => exact congrArg (Option.map Kind.task) (TaskSpec.ofFields?_members hold)
  | sequence => rfl
  | parallel spec => exact congrArg (Option.map Kind.parallel) (ParallelSpec.ofFields?_members hold)
  | condition text =>
    have found := hold "condition" (by decide)
    exact congrArg (Option.map Kind.condition)
      (Json.Fields.required?_of_found found (Json.str?_str text))
  | loop spec => exact congrArg (Option.map Kind.loop) (LoopSpec.ofFields?_members hold)
  | wait spec => exact congrArg (Option.map Kind.wait) (WaitSpec.ofFields?_members hold)

/-- The kind under its name is read back. -/
theorem ofJson?_record (kind : Kind) : ofJson? kind.toJson = some kind := by
  have named : Table.find? (Table.ofList (("type", Json.str kind.name) :: kind.members)) "type" =
      some (.str kind.name) := by
    rw [Table.find?_ofList_eq (kind.nodup_members _)]
    rfl
  have hold : Json.Fields.Hold ⟨Table.ofList (("type", .str kind.name) :: kind.members), false⟩
      kind.members := by
    intro name other
    rw [Table.find?_ofList_eq (kind.nodup_members _), Table.find?, if_neg other.symm]
  rw [toJson, Json.ofMembers, ofJson?, named]
  exact ofFields?_members hold

end Kind

/-! ## Trees -/

theorem Branch.ofName?_name (branch : Branch) : ofName? branch.name = some branch := by
  cases branch <;> rfl

namespace Node

/-- What the record of a branch and tags is made of. -/
def metadataMembers (branch : Option Branch) (tags : Table Json) : List (String × Json) :=
  optionalMember "branch" (fun b => .str b.name) branch
    ++ (if tags.isEmpty then [] else [("tags", .obj tags)])

theorem nodup_metadataMembers (branch : Option Branch) (tags : Table Json) :
    ((metadataMembers branch tags).map Prod.fst).Nodup := by
  cases branch <;> cases tags <;> simp [metadataMembers, optionalMember]

theorem metadata?_metadata (branch : Option Branch) (tags : Table Json) :
    metadata? (metadata branch tags) = some (branch, tags) := by
  have found := Table.find?_ofList_eq (nodup_metadataMembers branch tags)
  have side : Table.find? (Table.ofList (metadataMembers branch tags)) "branch" =
      branch.map fun b => .str b.name := by
    rw [found]
    cases tags <;> simp [metadataMembers, Table.find?_append, find?_optionalMember, Table.find?]
  have labels : Table.find? (Table.ofList (metadataMembers branch tags)) "tags" =
      if tags.isEmpty then none else some (.obj tags) := by
    rw [found]
    cases tags <;> simp [metadataMembers, Table.find?_append, find?_optionalMember, Table.find?]
  have table : Json.Fields.defaulted? ⟨Table.ofList (metadataMembers branch tags), false⟩ "tags"
      Json.table? [] = some tags := by
    rw [Json.Fields.defaulted?, labels]
    -- Tags that were left out are the default.
    cases tags <;> rfl
  have known (b : Branch) : (Json.str b.name).name?.bind Branch.ofName? = some b := b.ofName?_name
  have fields : (metadata branch tags).fields? ["branch", "tags"] =
      some ⟨Table.ofList (metadataMembers branch tags), false⟩ := rfl
  rw [metadata?, fields, Option.bind_eq_bind, Option.bind_some,
    Json.Fields.optional?_of_found side known (fun b => Json.str_ne_null b.name), table]
  rfl

/-- The children are under the first member of their name; without it there are none. -/
theorem childrenOfMembers?_eq (members : List (String × Json)) :
    childrenOfMembers? members =
      match Table.find? members "children" with
      | none => some []
      | some json => childrenOf? json := by
  induction members with
  | nil => rfl
  | cons member rest ih =>
    obtain ⟨name, json⟩ := member
    rw [childrenOfMembers?, Table.find?]
    split
    · rfl
    · exact ih

/-- What the record of a tree is made of. -/
def members (node : Node) : List (String × Json) :=
  [("id", .str node.id), ("kind", node.kind.toJson), ("metadata", metadata node.branch node.tags)]
    ++ (if node.children.isEmpty then [] else [("children", .arr (toJsonAll node.children))])

theorem toJson_eq (node : Node) : node.toJson = .obj (Table.ofList node.members) := by
  cases node
  rw [toJson]
  rfl

/-- A member of a record is found in the table that the record is. -/
theorem find?_members (node : Node) (name : String) :
    Table.find? (Table.ofList node.members) name = Table.find? node.members name := by
  refine Table.find?_ofList_eq ?_ name
  obtain ⟨id, kind, children, branch, tags⟩ := node
  cases children <;> simp [members]

theorem parts?_members (node : Node) :
    parts? ⟨Table.ofList node.members, false⟩ = some ⟨node.id, node.kind, node.branch, node.tags⟩ := by
  have id : Table.find? (Table.ofList node.members) "id" = some (.str node.id) := by
    rw [find?_members]
    simp [members, Table.find?]
  have kind : Table.find? (Table.ofList node.members) "kind" = some node.kind.toJson := by
    rw [find?_members]
    simp [members, Table.find?]
  have labels : Table.find? (Table.ofList node.members) "metadata" =
      some (metadata node.branch node.tags) := by
    rw [find?_members]
    simp [members, Table.find?]
  rw [parts?, Json.Fields.required?_of_found id (Json.str?_str _),
    Json.Fields.required?_of_found kind (Kind.ofJson?_record _),
    Json.Fields.defaulted?_of_found labels (metadata?_metadata _ _)]
  rfl

theorem childrenOfMembers?_members (node : Node) :
    childrenOfMembers? (Table.ofList node.members) = ofJsonAll? (toJsonAll node.children) := by
  rw [childrenOfMembers?_eq, find?_members]
  obtain ⟨id, kind, children, branch, tags⟩ := node
  cases children with
  | nil => simp [members, Table.find?, toJsonAll, ofJsonAll?]
  | cons child rest => simp [members, Table.find?, childrenOf?]

theorem ofJsonAll?_toJsonAll {nodes : List Node}
    (each : ∀ node ∈ nodes, ofJson? node.toJson = some node) :
    ofJsonAll? (toJsonAll nodes) = some nodes := by
  induction nodes with
  | nil => rfl
  | cons node rest ih =>
    rw [toJsonAll, ofJsonAll?, each node List.mem_cons_self,
      ih fun other member => each other (List.mem_cons_of_mem _ member)]
    rfl

/-- Reading the record of a tree gives back the tree. -/
theorem ofJson?_toJson (node : Node) : ofJson? node.toJson = some node := by
  induction node using Node.induction with
  | step node ih =>
    rw [toJson_eq, ofJson?, parts?_members, childrenOfMembers?_members, ofJsonAll?_toJsonAll ih]
    cases node
    rfl

end Node

end Stepwise

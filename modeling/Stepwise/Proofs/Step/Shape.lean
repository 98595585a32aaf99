import Stepwise.Proofs.Node.Tree
import Stepwise.Proofs.Step.Tree

/-!
# Shapes of trees

What the tree of some steps looks like, said of the values that it is read from: `MadeOf`. A step
becomes one node of its type, with what its steps become as children in their order; where several
steps stand but one node is wanted there is a sequence around them; and only the children of
conditions are tagged. So the nodes of a tree in preorder are those of the outline, one by one
(`parse_shape`).
-/

namespace Stepwise

/-- The keyword of the steps that become nodes of a type. -/
def NodeType.keyword : NodeType → String
  | .condition => "if"
  | type => type.name

namespace Step

open List (Forall₂)

/-- The steps that stand under a name: those of a list, or a single one. -/
def stepsAt (members : Table Json) (name : String) : List Json :=
  match Table.find? members name with
  | some (.arr items) => items
  | some (.obj inner) => [.obj inner]
  | _ => []

/-- The steps in the body of a loop, which may stand in an object of its own. -/
def stepsOfLoop (members : Table Json) : List Json :=
  match Table.find? members "loop" with
  | some (.obj inner) => stepsAt inner "body"
  | some (.str _) => stepsAt members "body"
  | _ => []

/-- The steps whose nodes are the children of a block. -/
def stepsUnder (members : Table Json) : NodeType → List Json
  | .sequence => stepsAt members "sequence"
  | .parallel => stepsAt members "parallel"
  | .loop => stepsOfLoop members
  | .task | .wait | .condition => []

/-- A step has one keyword, that of a type of nodes. -/
def HasType (members : Table Json) (type : NodeType) : Prop :=
  keywords.filter (Table.contains members) = [type.keyword]

/-- The node for steps that stand where one node is wanted: that of the only step, or else a
sequence of those of all steps. -/
inductive Gathered (made : Json → Node → Prop) : List Json → Node → Prop
  | one {step : Json} {node : Node} (same : made step node) : Gathered made [step] node
  | several {steps : List Json} {node : Node} (many : 2 ≤ steps.length)
      (sequence : node.kind = .sequence) (each : Forall₂ made steps node.children)
      (untagged : ∀ child ∈ node.children, child.branch = none) : Gathered made steps node

/-- A node and all below it are made of a step. Nothing is said about the branch on which the node
itself stands. -/
inductive MadeOf : Json → Node → Prop
  | block {members : Table Json} {node : Node} (type : HasType members node.kind.nodeType)
      (other : node.kind.nodeType ≠ .condition)
      (each : Forall₂ MadeOf (stepsUnder members node.kind.nodeType) node.children)
      (untagged : ∀ child ∈ node.children, child.branch = none) : MadeOf (.obj members) node
  | oneBranch {members : Table Json} {node yes : Node} (type : HasType members .condition)
      (condition : node.kind.nodeType = .condition) (children : node.children = [yes])
      (absent : Table.find? members "else" = none ∨ Table.find? members "else" = some .null)
      (whenTrue : Gathered MadeOf (stepsAt members "then") yes)
      (tagged : yes.branch = some .onTrue) : MadeOf (.obj members) node
  | twoBranches {members : Table Json} {node yes no : Node} (type : HasType members .condition)
      (condition : node.kind.nodeType = .condition) (children : node.children = [yes, no])
      (whenTrue : Gathered MadeOf (stepsAt members "then") yes)
      (whenFalse : Gathered MadeOf (stepsAt members "else") no)
      (tagged : yes.branch = some .onTrue ∧ no.branch = some .onFalse) : MadeOf (.obj members) node

/-- A node stands for an entry of an outline: a step, or the need for a sequence. -/
def Stands : Option Json → Node → Prop
  | some step, node => MadeOf step node
  | none, node => node.kind = .sequence ∧ ∀ child ∈ node.children, child.branch = none

/-- The children of a condition are tagged in their order, and those of other nodes are not. -/
structure Tagged (node : Node) : Prop where
  condition : node.kind.nodeType = .condition →
    node.children.map Node.branch = [some .onTrue] ∨
      node.children.map Node.branch = [some .onTrue, some .onFalse]
  other : node.kind.nodeType ≠ .condition → ∀ child ∈ node.children, child.branch = none

/-- What stands in the second of two related lists is related to something in the first. -/
theorem exists_of_mem_right {α β : Type} {R : α → β → Prop} {front : List α} {back : List β}
    (h : Forall₂ R front back) {b : β} (member : b ∈ back) : ∃ a ∈ front, R a b := by
  induction h with
  | nil => cases member
  | cons related _ ih =>
    rcases List.mem_cons.1 member with rfl | member
    · exact ⟨_, List.mem_cons_self, related⟩
    · obtain ⟨a, inside, found⟩ := ih member
      exact ⟨a, List.mem_cons_of_mem _ inside, found⟩

section

variable {members : Table Json} {json : Json} {items : List Json} {steps : List Step}
  {node : Node} {nodes : List Node} {name : String} {type : NodeType}

/-! ## Branches -/

theorem MadeOf.withBranch (h : MadeOf json node) (branch : Branch) :
    MadeOf json (node.withBranch branch) := by
  cases h with
  | block type other each untagged => exact .block type other each untagged
  | oneBranch type condition children absent whenTrue tagged =>
    exact .oneBranch type condition children absent whenTrue tagged
  | twoBranches type condition children whenTrue whenFalse tagged =>
    exact .twoBranches type condition children whenTrue whenFalse tagged

theorem Gathered.withBranch (h : Gathered MadeOf items node) (branch : Branch) :
    Gathered MadeOf items (node.withBranch branch) := by
  cases h with
  | one same => exact .one (same.withBranch branch)
  | several many sequence each untagged => exact .several many sequence each untagged

theorem MadeOf.tagged (h : MadeOf json node) : Tagged node := by
  cases h with
  | block type other each untagged => exact ⟨fun condition => absurd condition other, fun _ => untagged⟩
  | oneBranch type condition children absent whenTrue tagged =>
    refine ⟨fun _ => .inl ?_, fun other => absurd condition other⟩
    rw [children, List.map_singleton, tagged]
  | twoBranches type condition children whenTrue whenFalse tagged =>
    refine ⟨fun _ => .inr ?_, fun other => absurd condition other⟩
    rw [children, List.map_cons, List.map_singleton, tagged.1, tagged.2]

theorem Stands.tagged {step : Option Json} (h : Stands step node) : Tagged node := by
  cases step with
  | some json => exact MadeOf.tagged h
  | none =>
    obtain ⟨sequence, untagged⟩ := h
    refine ⟨fun condition => ?_, fun _ => untagged⟩
    rw [sequence] at condition
    cases condition

/-! ## The outline -/

theorem stepsAt_of_absent
    (h : Table.find? members name = none ∨ Table.find? members name = some .null) :
    stepsAt members name = [] := by
  rw [stepsAt]
  rcases h with h | h <;> rw [h]

theorem outlineUnder_eq (members : Table Json) (name : String) :
    outlineUnder members name = outlineAll (stepsAt members name) := by
  rw [outlineUnder, stepsAt]
  split
  · next items found => simp only [found]
  · next inner found => simp only [found, outlineAll, List.append_nil]
  · next list object =>
    split
    · next items found => exact absurd found (list items)
    · next inner found => exact absurd found (object inner)
    · rw [outlineAll]

theorem outlineWrapper_eq (members : Table Json) (name : String) :
    outlineWrapper members name = enclosure (stepsAt members name) := by
  rw [outlineWrapper, stepsAt]
  split
  · next items found => rw [found]
  · next list =>
    split
    · next items found => exact absurd found (list items)
    · rfl
    · rfl

theorem outlineLoop_eq (members : Table Json) :
    outlineLoop members = outlineAll (stepsOfLoop members) := by
  rw [outlineLoop, stepsOfLoop]
  split
  · next inner found => simp only [found, outlineUnder_eq]
  · next text found => simp only [found, outlineUnder_eq]
  · next object text =>
    split
    · next inner found => exact absurd found (object inner)
    · next text' found => exact absurd found (text text')
    · rw [outlineAll]

theorem outlineTree_nil : outlineTree [] = [] := by
  rw [outlineTree, outlineAll]
  rfl

/-- The outline of a step of a type: the step, then those that its node has below it. -/
theorem HasType.outline (h : HasType members type) : outline (.obj members) =
    some (.obj members) ::
      if type = .condition then
        outlineTree (stepsAt members "then") ++ outlineTree (stepsAt members "else")
      else outlineAll (stepsUnder members type) := by
  have read : Step.keyword "" members = .ok type.keyword := by
    rw [Step.keyword, h]
  rw [outline_of_keyword read]
  cases type with
  | sequence => rw [stepsUnder, ← outlineUnder_eq]; rfl
  | parallel => rw [stepsUnder, ← outlineUnder_eq]; rfl
  | loop => rw [stepsUnder, ← outlineLoop_eq]; rfl
  | condition =>
    rw [outlineTree, outlineTree, ← outlineUnder_eq, ← outlineUnder_eq, ← outlineWrapper_eq,
      ← outlineWrapper_eq]
    rfl
  | task | wait => rw [stepsUnder, outlineAll]; rfl

/-- The nodes of what a step becomes are those of its outline. -/
def Laid (node : Node) :
    Prop := ∀ step, MadeOf step node → Forall₂ Stands (outline step) node.preorder

theorem forall₂_outlineAll (laid : ∀ node ∈ nodes, Laid node) (each : Forall₂ MadeOf items nodes) :
    Forall₂ Stands (outlineAll items) (Node.preorderAll nodes) := by
  induction each with
  | nil =>
    rw [outlineAll]
    exact .nil
  | cons made _ ih =>
    rw [List.forall_mem_cons] at laid
    rw [outlineAll, Node.preorderAll]
    exact List.rel_append (laid.1 _ made) (ih laid.2)

theorem Gathered.forall₂_outlineTree (own : Laid node) (below : ∀ child ∈ node.children, Laid child)
    (h : Gathered MadeOf items node) : Forall₂ Stands (outlineTree items) node.preorder := by
  cases h with
  | one same =>
    rw [outlineTree, outlineAll, outlineAll, List.append_nil]
    exact own _ same
  | several many sequence each untagged =>
    rcases items with _ | ⟨first, _ | ⟨second, rest⟩⟩
    · cases many
    · exact absurd many (by simp)
    · rw [outlineTree, Node.preorder_eq]
      exact .cons ⟨sequence, untagged⟩ (forall₂_outlineAll below each)

theorem laid (node : Node) : Laid node ∧ ∀ child ∈ node.children, Laid child := by
  induction node using Node.induction with
  | step node ih =>
    have below : ∀ child ∈ node.children, Laid child := fun child member => (ih child member).1
    have gathered {child : Node} {items : List Json} (member : child ∈ node.children)
        (h : Gathered MadeOf items child) : Forall₂ Stands (outlineTree items) child.preorder :=
      h.forall₂_outlineTree (ih child member).1 (ih child member).2
    refine ⟨fun step made => ?_, below⟩
    cases made with
    | block type other each untagged =>
      rw [type.outline, if_neg other, Node.preorder_eq]
      exact .cons (MadeOf.block type other each untagged) (forall₂_outlineAll below each)
    | oneBranch type condition children absent whenTrue tagged =>
      have first := gathered (by simp [children]) whenTrue
      rw [type.outline, if_pos rfl, stepsAt_of_absent absent, outlineTree_nil, List.append_nil,
        Node.preorder_eq, children, Node.preorderAll, Node.preorderAll, List.append_nil]
      exact .cons (MadeOf.oneBranch type condition children absent whenTrue tagged) first
    | twoBranches type condition children whenTrue whenFalse tagged =>
      have first := gathered (by simp [children]) whenTrue
      have second := gathered (by simp [children]) whenFalse
      rw [type.outline, if_pos rfl, Node.preorder_eq, children, Node.preorderAll, Node.preorderAll,
        Node.preorderAll, List.append_nil]
      refine .cons (MadeOf.twoBranches type condition children whenTrue whenFalse tagged) ?_
      exact List.rel_append first second

/-! ## Trees that are read -/

/-- Whatever ids are given, the node of a step is made of a value. -/
def Becomes (json : Json) (step : Step) : Prop := ∀ naming, MadeOf json (build naming step).1

/-- What is read from smaller values becomes nodes that are made of them. -/
def BecomesBelow (size : Nat) : Prop :=
  ∀ item, sizeOf item < size → ∀ path step, read path item = .ok step → Becomes item step

@[simp] theorem branch_build (naming : Naming) (step : Step) :
    (build naming step).1.branch = none := by
  cases step <;> rfl

theorem branch_buildAll (naming : Naming) (steps : List Step) :
    ∀ node ∈ (buildAll naming steps).1, node.branch = none := by
  induction steps generalizing naming with
  | nil => exact nofun
  | cons step rest ih =>
    rw [buildAll, List.forall_mem_cons]
    exact ⟨branch_build naming step, ih _⟩

theorem forall₂_buildAll (each : Forall₂ Becomes items steps) (naming : Naming) :
    Forall₂ MadeOf items (buildAll naming steps).1 := by
  induction each generalizing naming with
  | nil => exact .nil
  | cons made _ ih => exact .cons (made naming) (ih _)

/-- Several steps become a sequence, whatever its id is. -/
theorem gathered_make (each : Forall₂ Becomes items steps) (many : 2 ≤ steps.length) (id : String)
    (naming : Naming) :
    Gathered MadeOf items (.make id .sequence (buildAll naming steps).1) :=
  .several (each.length_eq ▸ many) rfl (forall₂_buildAll each naming) (branch_buildAll naming steps)

/-- The steps of a branch become one node. -/
theorem exists_gathered (each : Forall₂ Becomes items steps) (nonempty : steps ≠ [])
    (naming : Naming) :
    ∃ node, wrap (naming.wrapperId steps).1 (buildAll (naming.wrapperId steps).2 steps).1 = [node] ∧
      Gathered MadeOf items node := by
  match steps, each, nonempty with
  | [step], .cons made .nil, _ => exact ⟨(build naming step).1, rfl, .one (made naming)⟩
  | _ :: _ :: _, each, _ => exact ⟨_, rfl, gathered_make each (by simp) _ _⟩

theorem gathered_tree {first : Step} {rest : List Step} (naming : Naming)
    (each : Forall₂ Becomes items (first :: rest)) :
    Gathered MadeOf items (tree naming first rest) ∧ (tree naming first rest).branch = none := by
  match rest, each with
  | [], .cons made .nil => exact ⟨.one (made naming), branch_build naming first⟩
  | _ :: _, each => exact ⟨gathered_make each (by simp) _ _, rfl⟩

theorem forall₂_readAll {path : String} {i : Nat}
    (each : ∀ item ∈ items, ∀ path step, read path item = .ok step → Becomes item step)
    (h : readAll path i items = .ok steps) : Forall₂ Becomes items steps := by
  induction items generalizing i steps with
  | nil =>
    rw [readAll] at h
    cases h
    exact .nil
  | cons item rest ih =>
    rw [List.forall_mem_cons] at each
    rw [readAll] at h
    obtain ⟨step, more, hstep, hmore, rfl⟩ := Reading.cons_ok h
    exact .cons (each.1 _ step hstep) (ih each.2 hmore)

theorem forall₂_readFrom (each : BecomesBelow (sizeOf members))
    (found : Table.find? members name = some json) (h : ReadFrom json steps) :
    Forall₂ Becomes (stepsAt members name) steps := by
  cases h with
  | @list path i items steps h =>
    rw [stepsAt, found]
    refine forall₂_readAll (fun item member => each item ?_) h
    exact Nat.lt_trans (List.sizeOf_lt_of_mem member) (sizeOf_find?_arr found)
  | @single path inner step h =>
    rw [stepsAt, found]
    exact .cons (each _ (sizeOf_find? found) _ _ h) .nil

theorem forall₂_readLoop (each : BecomesBelow (sizeOf members)) {path : String} {head : StepHead}
    {step : Step} (h : readLoop path members head = .ok step) :
    ∃ spec body, step = .loop head spec body ∧ Forall₂ Becomes (stepsOfLoop members) body := by
  obtain ⟨spec, body, rfl, ⟨inner, found, hbody⟩ | ⟨text, found, hbody⟩⟩ := readLoop_ok h
  · obtain ⟨json, place, made⟩ := readBody_ok hbody
    refine ⟨spec, body, rfl, ?_⟩
    rw [stepsOfLoop, found]
    refine forall₂_readFrom (fun item less => ?_) place made
    exact each item (Nat.lt_trans less (sizeOf_find?_obj found))
  · obtain ⟨json, place, made⟩ := readBody_ok hbody
    refine ⟨spec, body, rfl, ?_⟩
    rw [stepsOfLoop, found]
    exact forall₂_readFrom each place made

/-- The node of a condition, whose branches are read from the steps for true and for false. -/
theorem becomes_condition (each : BecomesBelow (sizeOf members)) {path text : String}
    {head : StepHead} {yes no : List Step} (type : HasType members .condition)
    (hyes : readThen path members = .ok yes) (hno : readElse path members = .ok no) :
    Becomes (.obj members) (.condition head text yes no) := by
  intro naming
  obtain ⟨json, found, made, nonempty⟩ := readThen_ok hyes
  obtain ⟨first, wrapped, whenTrue⟩ := exists_gathered (forall₂_readFrom each found made) nonempty
    (naming.blockId head.id "condition").2
  rcases readElse_ok hno with ⟨rfl, absent⟩ | ⟨json, found, made, nonempty⟩
  · refine .oneBranch type rfl ?_ absent (whenTrue.withBranch .onTrue) rfl
    simp only [build]
    rw [wrapped]
    rfl
  · obtain ⟨second, wrapped', whenFalse⟩ := exists_gathered (forall₂_readFrom each found made)
      nonempty (buildAll ((naming.blockId head.id "condition").2.wrapperId yes).2 yes).2
    refine .twoBranches type rfl ?_ (whenTrue.withBranch .onTrue) (whenFalse.withBranch .onFalse)
      ⟨rfl, rfl⟩
    simp only [build]
    rw [wrapped, wrapped']
    rfl

end

/-- The node of a step is made of the value that the step is read from. -/
theorem becomes_read {json : Json} {path : String} {step : Step} (h : read path json = .ok step) :
    Becomes json step := by
  cases json with
  | obj members =>
    have each : BecomesBelow (sizeOf members) := fun item smaller path step h => becomes_read h
    obtain ⟨keyword, head, hkeyword, -, made⟩ := read_ok h
    have type := keyword_ok hkeyword
    cases made with
    | task | wait => exact fun naming => .block type nofun .nil nofun
    | sequence hsteps =>
      obtain ⟨json, found, made⟩ := readUnder_ok hsteps
      exact fun naming => .block type nofun (forall₂_buildAll (forall₂_readFrom each found made) _)
        (branch_buildAll _ _)
    | parallel _ hsteps =>
      obtain ⟨json, found, made⟩ := readUnder_ok hsteps
      exact fun naming => .block type nofun (forall₂_buildAll (forall₂_readFrom each found made) _)
        (branch_buildAll _ _)
    | condition _ hyes hno => exact becomes_condition each type hyes hno
    | loop made =>
      obtain ⟨spec, body, rfl, each⟩ := forall₂_readLoop each made
      exact fun naming => .block type nofun (forall₂_buildAll each _) (branch_buildAll _ _)
  | _ =>
    unfold read at h
    cases h
termination_by sizeOf json
decreasing_by
  subst_vars
  simp only [Json.obj.sizeOf_spec] at *
  omega

theorem gathered_of_parse {steps : List Json} {root : Node} (h : parse steps = .ok root) :
    Gathered MadeOf steps root ∧ root.branch = none := by
  obtain ⟨first, rest, -, hread, rfl⟩ := parse_ok h
  exact gathered_tree _ (forall₂_readAll (fun _ _ _ _ => becomes_read) hread)

/-- The nodes of a tree that is read stand for the entries of the outline, one by one. -/
theorem forall₂_stands {steps : List Json} {root : Node} (h : parse steps = .ok root) :
    Forall₂ Stands (outlineTree steps) root.preorder := by
  obtain ⟨own, below⟩ := laid root
  exact (gathered_of_parse h).1.forall₂_outlineTree own below

/-- The tree of a list of steps has one node for each step of the list and for each step inside one
that is read, of the type of its keyword and with what is inside it as children in order, one
sequence around the steps of the list and of every branch if these are several, and no other node.
Its branch tags stand on the children of conditions, first that for true, then that for false. -/
theorem parse_shape {steps : List Json} {root : Node} (h : parse steps = .ok root) :
    Gathered MadeOf steps root ∧ root.branch = none ∧
      Forall₂ Stands (outlineTree steps) root.preorder ∧ ∀ n ∈ root.preorder, Tagged n := by
  obtain ⟨whole, untagged⟩ := gathered_of_parse h
  refine ⟨whole, untagged, forall₂_stands h, fun n member => ?_⟩
  obtain ⟨step, -, stands⟩ := exists_of_mem_right (forall₂_stands h) member
  exact stands.tagged

/-- A condition with two steps for true, in a list, and one for false. -/
def branching : List Json :=
  [.obj [("if", .str "x"),
    ("then", .arr [.obj [("task", .str "a")], .obj [("task", .str "b")]]),
    ("else", .obj [("task", .str "c")])]]

/-- A condition with several steps on one side and one on the other. -/
def branched : Node :=
  let task (name : String) := Node.make name (.task ⟨name, [], [], 0, none, none⟩) []
  .makeCondition "condition_1" "x" (.make "sequence_1" .sequence [task "a", task "b"])
    (some (task "c"))

theorem parse_shape_branching : parse branching = .ok branched ∧
    Gathered MadeOf branching branched ∧ branched.branch = none ∧
      Forall₂ Stands (outlineTree branching) branched.preorder ∧
        ∀ n ∈ branched.preorder, Tagged n := by
  have read : parse branching = .ok branched := by cbv
  exact ⟨read, parse_shape read⟩

end Step

end Stepwise

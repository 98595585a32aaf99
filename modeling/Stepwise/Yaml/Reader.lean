import Stepwise.Yaml.Node
import Stepwise.Yaml.Plain
import Stepwise.Yaml.Scanner

/-!
# Values from YAML documents

Readers of typed values from the nodes of a document. An alias is read as the node of its anchor;
a document allows a hundred such visits for each of its parts, and collections nest up to
128 levels, so that a short text never stands for an endless value.

A text is read from any scalar as it is written, the other kinds from plain scalars only. Where a
list or a mapping is wanted, a value that is not written is an empty one.
-/

namespace Stepwise.Yaml

namespace Node

mutual

/-- How many parts a node is written with; a collection counts for its two ends. -/
def parts : Node → Nat
  | .scalar .. => 1
  | .alias _ => 1
  | .sequence _ items => 2 + partsOfItems items
  | .mapping _ entries => 2 + partsOfEntries entries
  | .anchored _ node => parts node

/-- The parts of the items of a list. -/
def partsOfItems : List Node → Nat
  | [] => 0
  | item :: rest => parts item + partsOfItems rest

/-- The parts of the entries of a mapping. -/
def partsOfEntries : List (Node × Node) → Nat
  | [] => 0
  | (key, value) :: rest => parts key + parts value + partsOfEntries rest

end

mutual

/-- The nodes with anchors and the numbers of these, in the order of the text. -/
def anchors : Node → List (Nat × Node)
  | .scalar .. => []
  | .alias _ => []
  | .sequence _ items => anchorsOfItems items
  | .mapping _ entries => anchorsOfEntries entries
  | .anchored number node => (number, node) :: anchors node

/-- The anchors in the items of a list. -/
def anchorsOfItems : List Node → List (Nat × Node)
  | [] => []
  | item :: rest => anchors item ++ anchorsOfItems rest

/-- The anchors in the entries of a mapping. -/
def anchorsOfEntries : List (Node × Node) → List (Nat × Node)
  | [] => []
  | (key, value) :: rest => anchors key ++ anchors value ++ anchorsOfEntries rest

end

end Node

/-- How many levels collections may be nested. -/
def deepest : Nat := 128

/-- How often a document of one part may follow an alias. -/
def visitsPerPart : Nat := 100

/-- The nodes that the aliases of a document stand for. Of anchors with one number the last
counts. -/
structure Targets where
  nodes : List (Nat × Node)

/-- The targets in a node. -/
def Targets.ofNode (node : Node) : Targets := ⟨node.anchors.reverse⟩

/-- A step of reading, which counts the visits that are still allowed. -/
abbrev Visit (α : Type) := StateT Nat Option α

/-- What a node stands for. -/
def Targets.follow (targets : Targets) : Node → Visit Node
  | .alias number => do
    let left ← get
    match left, targets.nodes.lookup number with
    | left + 1, some node => do
      set left
      return node
    | _, _ => failure
  | .anchored _ node => return node
  | node => return node

/-- What a tag of the core schema is named. -/
def coreTag (name : String) : Option String := some (coreTags ++ name)

/-- The value of a scalar. A tag of the core schema tells its kind, another one of the schema
makes it a text, and one of the document's own is refused. -/
def scalarValue? (tag : Option String) (style : Style) (text : String) : Option Json :=
  match tag with
  | none => if style = .plain then plainValue? text else some (.str text)
  | some name =>
    if tag = coreTag "bool" then (bool? text).map .bool
    else if tag = coreTag "int" then int? text
    else if tag = coreTag "float" then (double? text).map .ofFloat
    else if tag = coreTag "null" then if isNullWord text then some .null else none
    else if name.startsWith "!" then none
    else some (.str text)

/-- Whether a tag is one of the document's own. -/
def isOwnTag (tag : Option String) : Bool := tag.any (·.startsWith "!")

namespace Targets

variable (targets : Targets)

/-- Reads a text. -/
def text (node : Node) : Visit String := do
  match ← targets.follow node with
  | .scalar _ _ text => return text
  | _ => failure

/-- Reads a value of any kind, with at most so many levels. Of members with one name the last
counts. -/
def value : (levels : Nat) → Node → Visit Json
  | 0, node => do
    match ← targets.follow node with
    | .scalar tag style text => StateT.lift (scalarValue? tag style text)
    | _ => failure
  | levels + 1, node => do
    match ← targets.follow node with
    | .scalar tag style text => StateT.lift (scalarValue? tag style text)
    | .sequence tag items =>
      if isOwnTag tag then failure
      else return .arr (← items.mapM (value levels))
    | .mapping tag entries =>
      if isOwnTag tag then failure
      else return .ofMembers (← entries.mapM (fun (key, item) => do
        return (← targets.text key, ← value levels item)))
    | _ => failure

/-- Reads a value that may be null or not written. -/
def optional {α : Type} (read : Node → Visit α) (node : Node) : Visit (Option α) := do
  let node ← targets.follow node
  match node with
  | .scalar tag .plain text =>
    if tag = coreTag "null" then
      if isNullWord text then return none else failure
    else if tag.isNone ∧ (text.isEmpty ∨ isNullWord text) then return none
    else return some (← read node)
  | _ => return some (← read node)

/-- Reads a scalar whose text has a meaning of a kind: a plain one, or a literal one with the tag
of the kind. -/
def scalar {α : Type} (kind : String) (meaning : String → Option α) (node : Node) : Visit α := do
  match ← targets.follow node with
  | .scalar tag style text =>
    if style = .plain ∨ (style = .literal ∧ tag = coreTag kind) then StateT.lift (meaning text)
    else failure
  | _ => failure

/-- Reads a double. -/
def double (node : Node) : Visit Float := targets.scalar "float" double? node

/-- Reads a natural number below a bound. -/
def natBelow (bound : Nat) (node : Node) : Visit Nat :=
  targets.scalar "int" (fun text => (unsigned? text).filter (· < bound)) node

/-- The items of a sequence. -/
def items (node : Node) : Visit (List Node) := do
  match ← targets.follow node with
  | .sequence _ items => return items
  | .scalar _ .plain "" => return []
  | _ => failure

/-- The entries of a mapping, whose keys are texts. -/
def entries (node : Node) : Visit (List (String × Node)) := do
  match ← targets.follow node with
  | .mapping _ entries => entries.mapM (fun (key, item) => return (← targets.text key, item))
  | .scalar _ .plain "" => return []
  | _ => failure

/-- The fields of a record: a mapping that has none of the names more than once. -/
def fields (names : List String) (node : Node) : Visit (Table Node) := do
  let found := (← targets.entries node).filter (fun entry => names.contains entry.1)
  if (found.map Prod.fst).Nodup then return found else failure

end Targets

/-- Reads the document of a text. -/
def Document.ofText? (text : String) : Option Document :=
  (Token.scan? text).bind Document.ofTokens?

/-- Reads a text with a reader of its root; a text without a document is read as a value that is
not written. -/
def read? {α : Type} (read : Targets → Node → Visit α) (text : String) : Option α := do
  let document ← Document.ofText? text
  let root := document.root.getD .blank
  let (value, _) ← (read (.ofNode root) root).run (visitsPerPart * root.parts)
  return value

/-- Reads a text as a value of any kind. -/
def value? (text : String) : Option Json := read? (fun targets => targets.value deepest) text

end Stepwise.Yaml

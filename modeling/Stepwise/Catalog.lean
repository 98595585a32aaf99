/-!
# Catalogues

A catalogue lists the names of the tasks and of the tools that steps may use. A side that is not
given allows every name. For an unknown name it suggests the nearest known one, if that is at
most three edits away.
-/

namespace Stepwise

/-- Known names; no list at all means that every name is known. -/
abbrev Names := Option (List String)

/-- The names of tasks and tools that may be used. -/
structure Catalog where
  tasks : Names
  tools : Names
deriving DecidableEq, Repr

namespace Catalog

/-- The catalogue that knows every name. -/
def unrestricted : Catalog := ⟨none, none⟩

/-- One row of the table of edit distances, from the row before it. `corner` and `left` are the
distances to the upper left and to the left of the first cell. -/
def nextRow (c : Char) : (b : List Char) → (row : List Nat) → (corner left : Nat) → List Nat
  | d :: b, above :: row, corner, left =>
    let cell := min (min (corner + (if c = d then 0 else 1)) (above + 1)) (left + 1)
    cell :: nextRow c b row above cell
  | _, _, _, _ => []

/-- Goes down the rows of the table and gives the last cell. -/
def lastCell (b : List Char) : (a : List Char) → (corner : Nat) → (row : List Nat) → Nat
  | [], corner, row => row.getLastD corner
  | c :: a, corner, row => lastCell b a (corner + 1) (nextRow c b row corner (corner + 1))

/-- The least number of insertions, deletions and substitutions of single characters that turn
one text into the other. -/
def distance (a b : String) : Nat :=
  lastCell b.toList a.toList 0 (List.range' 1 b.toList.length)

/-- The nearer of two names, or the smaller one. -/
def nearer (x y : Nat × String) : Nat × String :=
  if x.1 < y.1 ∨ (x.1 = y.1 ∧ x.2 ≤ y.2) then x else y

/-- The greatest distance of a suggestion. -/
def reach : Nat := 3

/-- The nearest known name within reach. -/
def nearest (name : String) (names : List String) : Option String :=
  let near := (names.map (fun known => (distance name known, known))).filter (fun p => p.1 ≤ reach)
  match near with
  | [] => none
  | first :: rest => some (rest.foldl nearer first).2

/-- Whether a name may be used. -/
def knows (names : Names) (name : String) : Bool :=
  match names with
  | none => true
  | some known => known.contains name

/-- The known names in their order, each once; none where every name is known. -/
def listed (names : Names) : List String :=
  ((names.getD []).mergeSort (fun a b => decide (a ≤ b))).eraseDups

/-- The nearest known name, where names are restricted. -/
def suggest (names : Names) (name : String) : Option String := names.bind (nearest name)

/-- Whether a task may be called. -/
def hasTask (catalog : Catalog) (name : String) : Bool := knows catalog.tasks name

/-- Whether a tool may be used. -/
def hasTool (catalog : Catalog) (name : String) : Bool := knows catalog.tools name

/-- The known task whose name is nearest to another. -/
def suggestTask (catalog : Catalog) (name : String) : Option String := suggest catalog.tasks name

/-- The known tool whose name is nearest to another. -/
def suggestTool (catalog : Catalog) (name : String) : Option String := suggest catalog.tools name

example : distance "kitten" "sitting" = 3 := by decide

end Catalog

end Stepwise

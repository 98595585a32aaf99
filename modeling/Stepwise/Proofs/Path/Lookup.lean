import Stepwise.Path.Basic

/-!
# Looking up in steps

`lookup` reads one result or one variable directly and never builds the object of all of them.
Here it is told as two steps: the first segment stands for a value, its root, and the others go
down from there. The object of all results is then the same as each result by itself, and a path
may be cut anywhere: what its front finds is where its back starts.
-/

namespace Stepwise.Path

variable (scope : Scope)

/-- The value that the first segment of a path stands for. -/
def root? : Segment → Option Json
  | .field name =>
    if name ∈ ["result", "results"] then some (.obj scope.results)
    else if name ∈ ["context", "variables", "vars"] then some (.obj scope.bindings)
    else (child? (.obj scope.bindings) (.field name)).or (child? (.obj scope.results) (.field name))
  | .index _ => none

/-- An entry that is read directly is the member of the whole object. -/
theorem fromTable_eq (table : Table Json) (path : List Segment) :
    fromTable table path = apply (.obj table) path := by
  cases path with
  | nil => rfl
  | cons segment rest => cases segment <;> rfl

theorem lookup_of_results {root : String} (known : root ∈ ["result", "results"])
    (path : List Segment) :
    lookup scope (.field root :: path) = apply (.obj scope.results) path := by
  simp only [List.mem_cons, List.not_mem_nil, or_false] at known
  rcases known with rfl | rfl <;> exact fromTable_eq _ path

theorem lookup_of_bindings {root : String} (known : root ∈ ["context", "variables", "vars"])
    (path : List Segment) :
    lookup scope (.field root :: path) = apply (.obj scope.bindings) path := by
  simp only [List.mem_cons, List.not_mem_nil, or_false] at known
  rcases known with rfl | rfl | rfl <;> exact fromTable_eq _ path

/-- A name that is not reserved is a variable, or else a result. -/
theorem lookup_of_name {name : String} (result : name ∉ ["result", "results"])
    (binding : name ∉ ["context", "variables", "vars"]) (path : List Segment) :
    lookup scope (.field name :: path) =
      ((scope.bindings.find? name).or (scope.results.find? name)).bind (apply · path) := by
  simp only [List.mem_cons, List.not_mem_nil, or_false, not_or] at result binding
  rw [lookup, Option.orElse_eq_or] <;> simp [result, binding]

theorem lookup_cons (first : Segment) (path : List Segment) :
    lookup scope (first :: path) = (root? scope first).bind (apply · path) := by
  cases first with
  | index n => rfl
  | field name =>
    by_cases result : name ∈ ["result", "results"]
    · rw [root?, if_pos result]
      exact lookup_of_results scope result path
    · by_cases binding : name ∈ ["context", "variables", "vars"]
      · rw [root?, if_neg result, if_pos binding]
        exact lookup_of_bindings scope binding path
      · rw [root?, if_neg result, if_neg binding]
        exact lookup_of_name scope result binding path

/-- A path may be cut anywhere behind its first segment: what its front finds is where its back
starts, whatever its root, which is all results, all variables, or one of either by name. So a
result that is read directly is what the object of all results has under its id. -/
theorem lookup_append (first : Segment) (path rest : List Segment) (id : String) :
    lookup scope (first :: path ++ rest) = (lookup scope (first :: path)).bind (apply · rest) ∧
      lookup scope (first :: path) = (root? scope first).bind (apply · path) ∧
      (scope.results.find? id).bind (apply · rest) =
        (lookup scope [.field "results"]).bind (apply · (.field id :: rest)) ∧
      lookup scope (.field "result" :: .field id :: rest) =
        (scope.results.find? id).bind (apply · rest) := by
  refine ⟨?_, lookup_cons scope first path, rfl, rfl⟩
  rw [List.cons_append, lookup_cons, lookup_cons, Option.bind_assoc]
  exact congrArg _ (funext fun json => apply_append json path rest)

end Stepwise.Path

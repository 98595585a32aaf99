import Mathlib.Data.List.ReduceOption
import Stepwise.Step.Naming

/-!
# Outlines of steps

The outline of a value lists, in the order of the nodes, what each node is made of when the value
is read: a step, or nothing but the need for a sequence around several steps. All ids that steps of
an outline give themselves are among those that are reserved, at their places (`sublist_reserved`).
-/

namespace Stepwise.Step

/-- The id that a step gives itself. -/
def explicitId : Json → Option String
  | .obj members => (Table.find? members "id").bind Json.str?
  | _ => none

/-- Several values that stand where one node is wanted need a sequence around them, which nobody
gives an id. -/
def enclosure {α β : Type} : List α → List (Option β)
  | _ :: _ :: _ => [none]
  | _ => []

/-- The sequence around the steps of a branch. -/
def outlineWrapper (members : Table Json) (name : String) : List (Option Json) :=
  match Table.find? members name with
  | some (.arr items) => enclosure items
  | _ => []

mutual

/-- What the nodes are made of when a step is read: the step itself, and those under its
keyword. -/
def outline (json : Json) : List (Option Json) :=
  match json with
  | .obj members =>
    some (.obj members) :: (outlineUnder members "sequence" ++ outlineUnder members "parallel"
      ++ (if Table.contains members "if" then
          (outlineWrapper members "then" ++ outlineUnder members "then")
            ++ (outlineWrapper members "else" ++ outlineUnder members "else")
        else [])
      ++ outlineLoop members)
  | _ => []
termination_by (sizeOf json, 0)
decreasing_by
  all_goals
    apply Prod.Lex.left
    simp only [Json.obj.sizeOf_spec]
    omega

/-- The steps that stand under a name: one, or those of a list. -/
def outlineUnder (members : Table Json) (name : String) : List (Option Json) :=
  match h : Table.find? members name with
  | some (.arr items) =>
    have := sizeOf_find?_arr h
    outlineAll items
  | some (.obj inner) =>
    have : 1 + sizeOf inner < sizeOf members := by simpa using sizeOf_find? h
    outline (.obj inner)
  | _ => []
termination_by (sizeOf members, 1)

/-- The steps in the body of a loop, which may stand in an object of its own. -/
def outlineLoop (members : Table Json) : List (Option Json) :=
  match h : Table.find? members "loop" with
  | some (.obj inner) =>
    have := sizeOf_find?_obj h
    outlineUnder inner "body"
  | some (.str _) => outlineUnder members "body"
  | _ => []
termination_by (sizeOf members, 2)

/-- The outlines of some steps, one after the other. -/
def outlineAll (items : List Json) : List (Option Json) :=
  match items with
  | [] => []
  | json :: rest => outline json ++ outlineAll rest
termination_by (sizeOf items, 0)

end

/-- What the nodes of the tree of some steps are made of. -/
def outlineTree (steps : List Json) : List (Option Json) := enclosure steps ++ outlineAll steps

section

variable {members inner : Table Json} {items : List Json} {name text : String}

theorem outlineUnder_of_arr (h : Table.find? members name = some (.arr items)) :
    outlineUnder members name = outlineAll items := by
  rw [outlineUnder]
  split <;> simp_all

theorem outlineUnder_of_obj (h : Table.find? members name = some (.obj inner)) :
    outlineUnder members name = outline (.obj inner) := by
  rw [outlineUnder]
  split <;> simp_all

theorem outlineUnder_of_none (h : Table.find? members name = none) :
    outlineUnder members name = [] := by
  rw [outlineUnder]
  split <;> simp_all

/-- Nothing but lists and objects holds steps. -/
theorem outlineUnder_cases (members : Table Json) (name : String) :
    (∃ items, Table.find? members name = some (.arr items) ∧
      outlineUnder members name = outlineAll items) ∨
    (∃ inner, Table.find? members name = some (.obj inner) ∧
      outlineUnder members name = outline (.obj inner)) ∨
    outlineUnder members name = [] := by
  rw [outlineUnder]
  split
  · next items h => exact .inl ⟨items, h, rfl⟩
  · next inner h => exact .inr (.inl ⟨inner, h, rfl⟩)
  · exact .inr (.inr rfl)

theorem outlineLoop_of_obj (h : Table.find? members "loop" = some (.obj inner)) :
    outlineLoop members = outlineUnder inner "body" := by
  rw [outlineLoop]
  split <;> simp_all

theorem outlineLoop_of_str (h : Table.find? members "loop" = some (.str text)) :
    outlineLoop members = outlineUnder members "body" := by
  rw [outlineLoop]
  split <;> simp_all

theorem outlineLoop_cases (members : Table Json) :
    (∃ inner, Table.find? members "loop" = some (.obj inner) ∧
      outlineLoop members = outlineUnder inner "body") ∨
    outlineLoop members = outlineUnder members "body" ∨ outlineLoop members = [] := by
  rw [outlineLoop]
  split
  · next inner h => exact .inl ⟨inner, h, rfl⟩
  · exact .inr (.inl rfl)
  · exact .inr (.inr rfl)

theorem outlineLoop_of_none (h : Table.find? members "loop" = none) : outlineLoop members = [] := by
  rw [outlineLoop]
  split <;> simp_all

theorem reservedUnder_eq (members : Table Json) (name : String) :
    reservedUnder members name =
      match Table.find? members name with
      | some (.arr items) => reservedAll items
      | some (.obj inner) => reserved (.obj inner)
      | _ => [] := by
  rw [reservedUnder]
  split <;> simp_all

theorem reservedBody_eq (members : Table Json) (name : String) :
    reservedBody members name =
      match Table.find? members name with
      | some (.obj inner) => reservedUnder inner "body"
      | _ => [] := by
  rw [reservedBody]
  split <;> simp_all

theorem reservedUnder_of_arr (h : Table.find? members name = some (.arr items)) :
    reservedUnder members name = reservedAll items := by
  rw [reservedUnder_eq, h]

theorem reservedUnder_of_obj (h : Table.find? members name = some (.obj inner)) :
    reservedUnder members name = reserved (.obj inner) := by
  rw [reservedUnder_eq, h]

theorem reservedBody_of_obj (h : Table.find? members name = some (.obj inner)) :
    reservedBody members name = reservedUnder inner "body" := by
  rw [reservedBody_eq, h]

end

/-! ## Reserved ids -/

/-- The ids that the steps of an outline give themselves. -/
def explicitIds (steps : List (Option Json)) : List String :=
  (steps.map (·.bind explicitId)).reduceOption

theorem explicitIds_append (front back : List (Option Json)) :
    explicitIds (front ++ back) = explicitIds front ++ explicitIds back := by
  rw [explicitIds, List.map_append, List.reduceOption_append]
  rfl

theorem explicitIds_cons (json : Json) (rest : List (Option Json)) :
    explicitIds (some json :: rest) = (explicitId json).toList ++ explicitIds rest := by
  rw [← List.singleton_append, explicitIds_append, explicitIds, List.map_singleton,
    List.reduceOption_singleton, Option.bind_some]

@[simp] theorem explicitIds_enclosure {α : Type} (items : List α) :
    explicitIds (enclosure items) = [] := by
  unfold enclosure
  split <;> rfl

@[simp] theorem explicitIds_outlineWrapper (members : Table Json) (name : String) :
    explicitIds (outlineWrapper members name) = [] := by
  unfold outlineWrapper
  split
  · exact explicitIds_enclosure _
  · rfl

theorem sublist_reservedAll {items : List Json}
    (each : ∀ item ∈ items, (explicitIds (outline item)).Sublist (reserved item)) :
    (explicitIds (outlineAll items)).Sublist (reservedAll items) := by
  induction items with
  | nil =>
    rw [outlineAll, reservedAll]
    exact List.Sublist.refl _
  | cons item rest ih =>
    rw [List.forall_mem_cons] at each
    rw [outlineAll, reservedAll, explicitIds_append]
    exact each.1.append (ih each.2)

/-- The ids of the steps that are read are reserved, each at a place of its own. -/
theorem sublist_reserved (json : Json) : (explicitIds (outline json)).Sublist (reserved json) := by
  cases json with
  | obj members =>
    have under (inner : Table Json) (smaller : sizeOf inner ≤ sizeOf members) (name : String) :
        (explicitIds (outlineUnder inner name)).Sublist (reservedUnder inner name) := by
      rcases outlineUnder_cases inner name with ⟨items, h, same⟩ | ⟨value, h, same⟩ | none
      · rw [same, reservedUnder_of_arr h]
        refine sublist_reservedAll fun item member => ?_
        have := List.sizeOf_lt_of_mem member
        have := sizeOf_find?_arr h
        exact sublist_reserved item
      · rw [same, reservedUnder_of_obj h]
        have := sizeOf_find? h
        exact sublist_reserved (.obj value)
      · rw [none]
        exact List.nil_sublist _
    have own (name : String) := under members (Nat.le_refl _) name
    have branches : (explicitIds (if Table.contains members "if" then
        (outlineWrapper members "then" ++ outlineUnder members "then")
          ++ (outlineWrapper members "else" ++ outlineUnder members "else") else [])).Sublist
        (reservedUnder members "then" ++ reservedUnder members "else") := by
      split
      · simp only [explicitIds_append, explicitIds_outlineWrapper, List.nil_append]
        exact (own "then").append (own "else")
      · exact List.nil_sublist _
    have loop : (explicitIds (outlineLoop members)).Sublist
        (reservedUnder members "body" ++ reservedBody members "loop") := by
      rcases outlineLoop_cases members with ⟨inner, h, same⟩ | same | none
      · rw [same, reservedBody_of_obj h]
        have := sizeOf_find?_obj h
        exact (under inner (Nat.le_of_lt this) "body").trans (List.sublist_append_right _ _)
      · rw [same]
        exact (own "body").trans (List.sublist_append_left _ _)
      · rw [none]
        exact List.nil_sublist _
    rw [outline, reserved, explicitIds_cons]
    generalize (if Table.contains members "if" then _ else _) = sides at branches ⊢
    simp only [explicitIds_append, List.append_assoc]
    refine List.Sublist.append (List.Sublist.refl _) ((own "sequence").append
      ((own "parallel").append ?_))
    rw [← List.append_assoc (reservedUnder members "then")]
    refine branches.append (loop.trans ?_)
    rw [← List.append_assoc (reservedUnder members "body")]
    exact List.sublist_append_left _ _
  | _ =>
    rw [outline]
    · exact List.nil_sublist _
    · rintro members ⟨⟩
termination_by sizeOf json
decreasing_by
  all_goals
    subst_vars
    simp only [Json.obj.sizeOf_spec] at *
    omega

end Stepwise.Step

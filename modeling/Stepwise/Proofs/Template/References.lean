import Stepwise.Template

/-!
# What a value asks for

`references` walks a value, cuts its texts into pieces and reads the paths in their placeholders.
`mem_references` says which ids it comes upon without any order of the walk: those of nodes that a
placeholder somewhere in the value asks for.
-/

namespace Stepwise.Template

/-- A text stands somewhere in a value. -/
inductive Contains (text : String) : Json → Prop
  | str : Contains text (.str text)
  | item {items : List Json} {item : Json} (member : item ∈ items) (inner : Contains text item) :
      Contains text (.arr items)
  | member {members : List (String × Json)} {name : String} {value : Json}
      (member : (name, value) ∈ members) (inner : Contains text value) :
      Contains text (.obj members)

/-- A path goes from the results to a node. -/
def LeadsTo (path : List Segment) (id : String) : Prop :=
  ∃ root rest, (root = "result" ∨ root = "results") ∧ path = .field root :: .field id :: rest

/-- A value asks for the result of a node: a placeholder in one of its texts holds a path to it. -/
def AsksFor (value : Json) (id : String) : Prop :=
  ∃ text, Contains text value ∧ ∃ body, .placeholder body ∈ pieces text.toList ∧
    ∃ path, Path.read (String.ofList body) = .ok path ∧ LeadsTo path id

/-! ## Texts -/

theorem contains_arr {text : String} {items : List Json} :
    Contains text (.arr items) ↔ ∃ item ∈ items, Contains text item := by
  constructor
  · intro h
    cases h with
    | item member inner => exact ⟨_, member, inner⟩
  · rintro ⟨item, member, inner⟩
    exact .item member inner

theorem contains_obj {text : String} {members : List (String × Json)} :
    Contains text (.obj members) ↔ ∃ entry ∈ members, Contains text entry.2 := by
  constructor
  · intro h
    cases h with
    | member member inner => exact ⟨_, member, inner⟩
  · rintro ⟨⟨name, value⟩, member, inner⟩
    exact .member member inner

mutual

/-- The texts of a value are those that stand somewhere in it. -/
theorem mem_texts {text : String} (value : Json) : text ∈ texts value ↔ Contains text value := by
  cases value with
  | str s =>
    rw [texts, List.mem_singleton]
    constructor
    · rintro rfl
      exact .str
    · intro h
      cases h
      rfl
  | arr items => rw [texts, contains_arr, mem_itemTexts items]
  | obj members => rw [texts, contains_obj, mem_memberTexts members]
  | null | bool | int | float =>
    rw [texts]
    exact ⟨nofun, nofun⟩

theorem mem_itemTexts {text : String} (items : List Json) :
    text ∈ itemTexts items ↔ ∃ item ∈ items, Contains text item := by
  cases items with
  | nil => simp [itemTexts]
  | cons item rest =>
    simp only [itemTexts, List.mem_append, mem_texts item, mem_itemTexts rest, List.mem_cons,
      exists_eq_or_imp]

theorem mem_memberTexts {text : String} (members : List (String × Json)) :
    text ∈ memberTexts members ↔ ∃ entry ∈ members, Contains text entry.2 := by
  cases members with
  | nil => simp [memberTexts]
  | cons entry rest =>
    obtain ⟨name, value⟩ := entry
    simp only [memberTexts, List.mem_append, mem_texts value, mem_memberTexts rest, List.mem_cons,
      exists_eq_or_imp]

end

/-! ## References -/

theorem referencedNode?_eq_some {path : List Segment} {id : String} :
    Path.referencedNode? path = some id ↔ LeadsTo path id := by
  constructor
  · intro h
    unfold Path.referencedNode? at h
    split at h
    · next rest =>
      cases h
      exact ⟨_, rest, .inl rfl, rfl⟩
    · next rest =>
      cases h
      exact ⟨_, rest, .inr rfl, rfl⟩
    · cases h
  · rintro ⟨root, rest, rfl | rfl, rfl⟩
    · rfl
    · rfl

theorem reference?_eq_some {piece : Piece} {id : String} : piece.reference? = some id ↔
    ∃ body path, piece = .placeholder body ∧ Path.read (String.ofList body) = .ok path ∧
      LeadsTo path id := by
  cases piece with
  | plain c => simp [Piece.reference?]
  | placeholder body =>
    cases hread : Path.read (String.ofList body) with
    | error fault => simp [Piece.reference?, hread]
    | ok path => simp [Piece.reference?, hread, referencedNode?_eq_some]

/-- The references of a value are the ids of the nodes that it asks for. -/
theorem mem_references {value : Json} {id : String} : id ∈ references value ↔ AsksFor value id := by
  simp only [references, List.mem_eraseDups, List.mem_flatMap, List.mem_filterMap, mem_texts,
    reference?_eq_some, AsksFor]
  constructor
  · rintro ⟨text, inside, _, member, body, path, rfl, read, leads⟩
    exact ⟨text, inside, body, member, path, read, leads⟩
  · rintro ⟨text, inside, body, member, path, read, leads⟩
    exact ⟨text, inside, _, member, body, path, rfl, read, leads⟩

end Stepwise.Template

import Mathlib.Data.List.Basic
import Stepwise.Proofs.Template.References

/-!
# What the value of a template depends on

A placeholder whose path starts from the result of one node, or from the variables, looks at
nothing else. So a value in which all placeholders are of this kind comes out alike in any two
scopes with the same variables in which the nodes that it refers to have the same results, or
alike have none (`resolve_eq_of_references`): no result is read that is not among the references.
A value without placeholders looks at nothing and stands for itself (`resolve_of_plain`).
-/

namespace Stepwise.Template

/-- A path starts from the result of one node, or from the variables. -/
def Anchored (path : List Segment) : Prop :=
  (∃ id, LeadsTo path id) ∨
    ∃ root rest, (root = "context" ∨ root = "variables" ∨ root = "vars") ∧
      path = .field root :: rest

/-- A placeholder stands in one of the texts of a value. -/
def Holds (value : Json) (body : List Char) : Prop :=
  ∃ text, Contains text value ∧ .placeholder body ∈ pieces text.toList

/-- All paths in the placeholders of a value are anchored. What is no path does not matter. -/
def AllAnchored (value : Json) : Prop :=
  ∀ body, Holds value body → ∀ path, Path.read (String.ofList body) = .ok path → Anchored path

/-- Two scopes have the same variables, and some nodes have the same results in both. -/
structure Alike (scope other : Scope) (ids : String → Prop) : Prop where
  bindings : scope.bindings = other.bindings
  results : ∀ id, ids id → Table.find? scope.results id = Table.find? other.results id

variable {scope other : Scope}

theorem Alike.mono {ids fewer : String → Prop} (h : Alike scope other ids)
    (subset : ∀ id, fewer id → ids id) : Alike scope other fewer :=
  ⟨h.bindings, fun id member => h.results id (subset id member)⟩

/-! ## Paths and placeholders -/

/-- An anchored path finds the same value in both scopes. -/
theorem lookup_eq {path : List Segment} (anchored : Anchored path)
    (alike : Alike scope other (LeadsTo path)) : Path.lookup scope path = Path.lookup other path := by
  rcases anchored with ⟨id, root, rest, names, rfl⟩ | ⟨root, rest, names, rfl⟩
  · have same := alike.results id ⟨root, rest, names, rfl⟩
    rcases names with rfl | rfl <;> simp only [Path.lookup, Path.fromTable, same]
  · rcases names with rfl | rfl | rfl <;> simp only [Path.lookup, alike.bindings]

/-- A placeholder asks for the result of a node. -/
def Requests (body : List Char) (id : String) : Prop :=
  ∃ path, Path.read (String.ofList body) = .ok path ∧ LeadsTo path id

theorem valueOf_eq {body : List Char}
    (anchored : ∀ path, Path.read (String.ofList body) = .ok path → Anchored path)
    (alike : Alike scope other (Requests body)) : valueOf scope body = valueOf other body := by
  simp only [valueOf, Path.resolve]
  cases read : Path.read (String.ofList body) with
  | error fault => rfl
  | ok path =>
    have leads : Alike scope other (LeadsTo path) := alike.mono fun id leads => ⟨path, read, leads⟩
    simp only [Except.map, lookup_eq (anchored path read) leads]

/-! ## Values without placeholders -/

theorem pieces_of_plain {cs : List Char} (plain : ∀ body, .placeholder body ∉ pieces cs) :
    pieces cs = cs.map .plain := by
  fun_induction pieces cs with
  | case1 => exact absurd List.mem_cons_self (plain _)
  | case2 => rfl
  | case3 c rest _ ih =>
    rw [ih fun body member => plain body (List.mem_cons_of_mem _ member), List.map_cons]

theorem resolveText_of_plain {text : String} (plain : ∀ body, ¬Holds (.str text) body)
    (scope : Scope) : resolveText scope text = .str text := by
  have only : pieces text.toList = text.toList.map .plain :=
    pieces_of_plain fun body member => plain body ⟨text, .str, member⟩
  have filled : String.join ((text.toList.map Piece.plain).map (Piece.fill scope)) = text := by
    have each (c : Char) : (Piece.fill scope (.plain c)).toList = [c] := by simp [Piece.fill]
    apply String.toList_injective
    rw [String.toList_join, List.map_map, List.flatMap_map]
    simp only [Function.comp, each, List.flatMap_singleton']
  unfold resolveText
  split
  · next body alone => exact absurd ⟨text, .str, alone ▸ List.mem_singleton_self _⟩ (plain body)
  · rw [only, filled]

mutual

/-- A value without placeholders stands for itself. -/
theorem resolve_of_plain (value : Json) (plain : ∀ body, ¬Holds value body) (scope : Scope) :
    resolve scope value = value := by
  cases value with
  | str text => rw [resolve, resolveText_of_plain plain]
  | arr items =>
    rw [resolve, resolveItems_of_plain items fun item member body => ?_]
    rintro ⟨text, inner, held⟩
    exact plain body ⟨text, .item member inner, held⟩
  | obj members =>
    rw [resolve, resolveMembers_of_plain members fun entry member body => ?_]
    rintro ⟨text, inner, held⟩
    exact plain body ⟨text, .member member inner, held⟩
  | null | bool | int | float => rw [resolve]

theorem resolveItems_of_plain (items : List Json)
    (plain : ∀ item ∈ items, ∀ body, ¬Holds item body) (scope : Scope) :
    resolveItems scope items = items := by
  cases items with
  | nil => rfl
  | cons item rest =>
    rw [List.forall_mem_cons] at plain
    rw [resolveItems, resolve_of_plain item plain.1, resolveItems_of_plain rest plain.2]

theorem resolveMembers_of_plain (members : List (String × Json))
    (plain : ∀ entry ∈ members, ∀ body, ¬Holds entry.2 body) (scope : Scope) :
    resolveMembers scope members = members := by
  cases members with
  | nil => rfl
  | cons entry rest =>
    obtain ⟨name, value⟩ := entry
    rw [List.forall_mem_cons] at plain
    rw [resolveMembers, resolve_of_plain value plain.1, resolveMembers_of_plain rest plain.2]

end

/-! ## Texts and values -/

/-- A text asks only for what its placeholders ask for, whether it is one of them or has them
among other characters. -/
theorem resolveText_eq {text : String} (anchored : AllAnchored (.str text))
    (alike : Alike scope other (AsksFor (.str text))) :
    resolveText scope text = resolveText other text := by
  have value (body : List Char) (member : .placeholder body ∈ pieces text.toList) :
      valueOf scope body = valueOf other body := by
    refine valueOf_eq (anchored body ⟨text, .str, member⟩) (alike.mono ?_)
    rintro id ⟨path, read, leads⟩
    exact ⟨text, .str, body, member, path, read, leads⟩
  have fill (piece : Piece) (member : piece ∈ pieces text.toList) :
      piece.fill scope = piece.fill other := by
    cases piece with
    | plain c => rfl
    | placeholder body => simp only [Piece.fill, value body member]
  unfold resolveText
  split
  · next body alone => exact value body (alone ▸ List.mem_singleton_self _)
  · rw [List.map_congr_left fill]

theorem AllAnchored.mono {value part : Json} (h : AllAnchored value)
    (inside : ∀ text, Contains text part → Contains text value) : AllAnchored part :=
  fun body ⟨text, contained, member⟩ => h body ⟨text, inside text contained, member⟩

theorem AsksFor.mono {value part : Json} {id : String} (h : AsksFor part id)
    (inside : ∀ text, Contains text part → Contains text value) : AsksFor value id := by
  obtain ⟨text, contained, asks⟩ := h
  exact ⟨text, inside text contained, asks⟩

mutual

/-- A value of anchored placeholders comes out alike where what it asks for is alike. -/
theorem resolve_eq (value : Json) (anchored : AllAnchored value)
    (alike : Alike scope other (AsksFor value)) : resolve scope value = resolve other value := by
  cases value with
  | str text => rw [resolve, resolve, resolveText_eq anchored alike]
  | arr items =>
    rw [resolve, resolve, resolveItems_eq items fun item member => ?_]
    have inside (text : String) (inner : Contains text item) : Contains text (.arr items) :=
      .item member inner
    exact ⟨anchored.mono inside, alike.mono fun id asks => asks.mono inside⟩
  | obj members =>
    rw [resolve, resolve, resolveMembers_eq members fun entry member => ?_]
    have inside (text : String) (inner : Contains text entry.2) : Contains text (.obj members) :=
      .member member inner
    exact ⟨anchored.mono inside, alike.mono fun id asks => asks.mono inside⟩
  | null | bool | int | float => rw [resolve, resolve]

theorem resolveItems_eq (items : List Json)
    (each : ∀ item ∈ items, AllAnchored item ∧ Alike scope other (AsksFor item)) :
    resolveItems scope items = resolveItems other items := by
  cases items with
  | nil => rfl
  | cons item rest =>
    rw [List.forall_mem_cons] at each
    rw [resolveItems, resolveItems, resolve_eq item each.1.1 each.1.2, resolveItems_eq rest each.2]

theorem resolveMembers_eq (members : List (String × Json))
    (each : ∀ entry ∈ members, AllAnchored entry.2 ∧ Alike scope other (AsksFor entry.2)) :
    resolveMembers scope members = resolveMembers other members := by
  cases members with
  | nil => rfl
  | cons entry rest =>
    obtain ⟨name, value⟩ := entry
    rw [List.forall_mem_cons] at each
    rw [resolveMembers, resolveMembers, resolve_eq value each.1.1 each.1.2,
      resolveMembers_eq rest each.2]

end

/-- If every placeholder of a value that holds a path starts from the result of one node or from
the variables, the value comes out alike in any two scopes with the same variables in which every
node that it refers to has the same result, or has none in either. -/
theorem resolve_eq_of_references {value : Json} (anchored : AllAnchored value)
    (bindings : scope.bindings = other.bindings)
    (results : ∀ id ∈ references value,
      Table.find? scope.results id = Table.find? other.results id) :
    resolve scope value = resolve other value :=
  resolve_eq value anchored ⟨bindings, fun id asks => results id (mem_references.2 asks)⟩

/-! ## Scopes that differ elsewhere -/

/-- A value with a placeholder alone, and with two among other characters. -/
def digest : Json :=
  .obj [("hits", .str "$\x7bresult.search.hits\x7d"),
    ("notes", .arr [.str "on $\x7bvars.topic\x7d: $\x7bresults.fetch\x7d"])]

/-- A search has ended, and one more node. -/
def early : Scope := ⟨[("topic", .str "rust")], [("search", .obj [("hits", .int 2)])]⟩

/-- Yet another node has ended, to which the digest does not refer. -/
def late : Scope := { early with results := early.results ++ [("send", .bool true)] }

theorem resolve_eq_of_references_digest : AllAnchored digest ∧ early.bindings = late.bindings ∧
    references digest = ["search", "fetch"] ∧ resolve early digest = resolve late digest := by
  have alone : pieces "$\x7bresult.search.hits\x7d".toList =
      [.placeholder "result.search.hits".toList] := by cbv
  have among : pieces "on $\x7bvars.topic\x7d: $\x7bresults.fetch\x7d".toList =
      "on ".toList.map .plain ++ [.placeholder "vars.topic".toList] ++ ": ".toList.map .plain
        ++ [.placeholder "results.fetch".toList] := by cbv
  have hits : Path.read "result.search.hits" =
      .ok [.field "result", .field "search", .field "hits"] := by cbv
  have topic : Path.read "vars.topic" = .ok [.field "vars", .field "topic"] := by cbv
  have fetch : Path.read "results.fetch" = .ok [.field "results", .field "fetch"] := by cbv
  have anchored : AllAnchored digest := by
    rintro body ⟨text, contained, member⟩ path read
    have listed : text ∈ texts digest := (mem_texts digest).2 contained
    simp only [digest, texts, memberTexts, itemTexts, List.append_nil, List.singleton_append,
      List.mem_cons, List.not_mem_nil, or_false] at listed
    rcases listed with rfl | rfl
    · rw [alone, List.mem_singleton] at member
      cases member
      cases hits.symm.trans (String.ofList_toList ▸ read)
      exact .inl ⟨_, _, _, .inl rfl, rfl⟩
    · simp only [among, List.mem_append, List.mem_map, List.mem_singleton] at member
      rcases member with ((⟨_, _, absurd⟩ | member) | ⟨_, _, absurd⟩) | member
      · cases absurd
      · cases member
        cases topic.symm.trans (String.ofList_toList ▸ read)
        exact .inr ⟨_, _, .inr (.inr rfl), rfl⟩
      · cases absurd
      · cases member
        cases fetch.symm.trans (String.ofList_toList ▸ read)
        exact .inl ⟨_, _, _, .inr rfl, rfl⟩
  have references : references digest = ["search", "fetch"] := by cbv
  refine ⟨anchored, rfl, references, resolve_eq_of_references anchored rfl fun id member => ?_⟩
  rw [references] at member
  simp only [List.mem_cons, List.not_mem_nil, or_false] at member
  rcases member with rfl | rfl <;> rfl

end Stepwise.Template

import Stepwise.Json.Printer
import Stepwise.Path.Reader

/-!
# Templates

A text may hold placeholders: `$`, an opening brace, a path, a closing brace. A text that is one
placeholder stands for the value at its path, of whatever kind; in any other text the values are
put in as text. What cannot be found counts as null. `references` lists the nodes whose results a
value asks for.
-/

namespace Stepwise.Template

/-- A character of a text, or a placeholder with what stands between its braces. -/
inductive Piece where
  | plain (c : Char)
  | placeholder (body : List Char)
deriving DecidableEq, Repr

/-- Braces open and close placeholders. -/
def isBrace (c : Char) : Bool := c == '\x7b' || c == '\x7d'

/-- The body of a placeholder at the front of a text, and what follows it. The body has no braces
and at least one character. -/
def placeholder? : List Char → Option (List Char × List Char)
  | '$' :: '\x7b' :: rest =>
    match rest.takeWhile (fun c => !isBrace c), rest.dropWhile (fun c => !isBrace c) with
    | b :: body, '\x7d' :: after => some (b :: body, after)
    | _, _ => none
  | _ => none

theorem length_placeholder? {cs body after : List Char} (h : placeholder? cs = some (body, after)) :
    after.length < cs.length := by
  unfold placeholder? at h
  split at h
  · next rest =>
    split at h
    · next hd =>
      have hl := Text.length_dropWhile_le (fun c => !isBrace c) rest
      rw [hd] at hl
      simp only [Option.some.injEq, Prod.mk.injEq] at h
      obtain ⟨-, rfl⟩ := h
      simp only [List.length_cons] at hl ⊢
      omega
    · simp at h
  · simp at h

/-- Cuts a text into placeholders, found from the left, and the characters around them. -/
def pieces (cs : List Char) : List Piece :=
  match h : placeholder? cs with
  | some (body, after) =>
    have := length_placeholder? h
    .placeholder body :: pieces after
  | none =>
    match cs with
    | [] => []
    | c :: rest => .plain c :: pieces rest
termination_by cs.length

/-- The value that a placeholder stands for. -/
def valueOf (scope : Scope) (body : List Char) : Json :=
  match Path.resolve scope (String.ofList body) with
  | .ok (some value) => value
  | _ => .null

/-- A value inside a text. -/
def textOf : Json → String
  | .str s => s
  | .null => ""
  | value => value.compact

/-- A piece of a text with its value put in. -/
def Piece.fill (scope : Scope) : Piece → String
  | .plain c => c.toString
  | .placeholder body => textOf (valueOf scope body)

/-- The value of a text. -/
def resolveText (scope : Scope) (text : String) : Json :=
  match pieces text.toList with
  | [.placeholder body] => valueOf scope body
  | all => .str (String.join (all.map (Piece.fill scope)))

mutual

/-- The value with every text in it resolved. -/
def resolve (scope : Scope) : Json → Json
  | .str s => resolveText scope s
  | .arr items => .arr (resolveItems scope items)
  | .obj members => .obj (resolveMembers scope members)
  | .null => .null
  | .bool b => .bool b
  | .int n => .int n
  | .float x => .float x

/-- Resolves the items of a list, each by itself. -/
def resolveItems (scope : Scope) : List Json → List Json
  | [] => []
  | a :: rest => resolve scope a :: resolveItems scope rest

/-- Resolves the values of an object; its keys stay as they are. -/
def resolveMembers (scope : Scope) : List (String × Json) → List (String × Json)
  | [] => []
  | (k, a) :: rest => (k, resolve scope a) :: resolveMembers scope rest

end

mutual

/-- The texts in a value, from the left. -/
def texts : Json → List String
  | .str s => [s]
  | .arr items => itemTexts items
  | .obj members => memberTexts members
  | .null => []
  | .bool _ => []
  | .int _ => []
  | .float _ => []

/-- The texts in the items of a list. -/
def itemTexts : List Json → List String
  | [] => []
  | a :: rest => texts a ++ itemTexts rest

/-- The texts in the values of an object. -/
def memberTexts : List (String × Json) → List String
  | [] => []
  | (_, a) :: rest => texts a ++ memberTexts rest

end

/-- The node whose result a piece asks for. -/
def Piece.reference? : Piece → Option String
  | .plain _ => none
  | .placeholder body =>
    match Path.read (String.ofList body) with
    | .ok path => Path.referencedNode? path
    | .error _ => none

/-- The nodes whose results a value asks for, each at its first place. -/
def references (value : Json) : List String :=
  ((texts value).flatMap (fun s => (pieces s.toList).filterMap Piece.reference?)).eraseDups

end Stepwise.Template

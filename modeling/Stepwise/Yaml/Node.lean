import Stepwise.Yaml.Token

/-!
# Nodes of YAML documents

The tree that the tokens of a document stand for: scalars, sequences and mappings, each perhaps
with a tag and an anchor, and aliases, which stand for the node of an anchor. Every reader hands
back the tokens it left over with the proof that they are fewer.
-/

namespace Stepwise.Yaml

/-- A node of a document. -/
inductive Node where
  | scalar (tag : Option String) (style : Style) (text : String)
  | sequence (tag : Option String) (items : List Node)
  | mapping (tag : Option String) (entries : List (Node × Node))
  | alias (number : Nat)
  | anchored (number : Nat) (node : Node)

/-- A document; a text without one has no root. -/
structure Document where
  root : Option Node

/-- The node that is not written: an empty plain scalar. -/
def Node.blank : Node := .scalar none .plain ""

/-- A result and the tokens left over, fewer than there were. -/
structure Parsed (α : Type) (tokens : List Token) where
  value : α
  rest : List Token
  shorter : rest.length < tokens.length

/-- A result and the tokens left over, perhaps all of them. -/
structure Continued (α : Type) (tokens : List Token) where
  value : α
  rest : List Token
  notLonger : rest.length ≤ tokens.length

/-- The same result, of more tokens. -/
def Parsed.widen {α β : Type} {tokens more : List Token} (parsed : Parsed α tokens)
    (f : α → β) (h : tokens.length ≤ more.length) : Parsed β more :=
  ⟨f parsed.value, parsed.rest, Nat.lt_of_lt_of_le parsed.shorter h⟩

/-- A result that took at least nothing. -/
def Parsed.continued {α : Type} {tokens : List Token} (parsed : Parsed α tokens) :
    Continued α tokens :=
  ⟨parsed.value, parsed.rest, Nat.le_of_lt parsed.shorter⟩

/-- The anchor and the tag in front of a node. -/
structure Properties where
  anchor : Option Nat
  tag : Option String

namespace Properties

/-- Takes the properties at the front, in either order. -/
def ofTokens : List Token → Properties × List Token
  | .anchor number :: .tag name :: rest => (⟨some number, some name⟩, rest)
  | .anchor number :: rest => (⟨some number, none⟩, rest)
  | .tag name :: .anchor number :: rest => (⟨some number, some name⟩, rest)
  | .tag name :: rest => (⟨none, some name⟩, rest)
  | rest => (⟨none, none⟩, rest)

theorem length_ofTokens (tokens : List Token) : (ofTokens tokens).2.length ≤ tokens.length := by
  fun_cases ofTokens tokens <;> simp only [List.length_cons] <;> omega

/-- A node with the anchor of its properties. -/
def anchoring (properties : Properties) (node : Node) : Node :=
  match properties.anchor with
  | some number => .anchored number node
  | none => node

end Properties

/-- Whether a node begins at the front; blocks begin only in blocks, and items without a block of
their own only where they may. -/
def beginsContent (inBlock indentless : Bool) : List Token → Bool
  | .scalar .. :: _ => true
  | .openSequence :: _ => true
  | .openMapping :: _ => true
  | .entry :: _ => indentless
  | .blockSequence :: _ => inBlock
  | .blockMapping :: _ => inBlock
  | _ => false

/-- Whether the next token is one of some. -/
def nextIs (tokens : List Token) (these : List Token) : Bool := tokens.head?.any these.contains

/-- What ends an item or a value in a block. -/
def blockStops : List Token := [.key, .value, .blockEnd]

mutual

/-- Reads a node with its properties. -/
def node (inBlock indentless : Bool) (tokens : List Token) : Option (Parsed Node tokens) :=
  match tokens with
  | .alias number :: rest => some ⟨.alias number, rest, by simp⟩
  | tokens =>
    let properties := (Properties.ofTokens tokens).1
    let rest := (Properties.ofTokens tokens).2
    have notLonger : rest.length ≤ tokens.length := Properties.length_ofTokens tokens
    if beginsContent inBlock indentless rest then
      (content properties.tag rest).map
        (fun parsed => parsed.widen properties.anchoring notLonger)
    else if shorter : rest.length < tokens.length then
      some ⟨properties.anchoring (.scalar properties.tag .plain ""), rest, shorter⟩
    else none
termination_by (tokens.length, 2)
decreasing_by exact Prod.Lex.right' _ notLonger (by decide)

/-- Reads a node without properties. -/
def content (tag : Option String) (tokens : List Token) : Option (Parsed Node tokens) :=
  match tokens with
  | .scalar style text :: rest =>
    some ⟨.scalar (if tag = some "!" then none else tag) style text, rest, by simp⟩
  | .openSequence :: rest => (flowItems rest).map (·.widen (.sequence tag) (by simp))
  | .openMapping :: rest => (flowEntries rest).map (·.widen (.mapping tag) (by simp))
  | .entry :: rest => (looseItems rest).map (fun items =>
      ⟨.sequence tag items.value, items.rest, by have := items.notLonger; simp only [List.length_cons]; omega⟩)
  | .blockSequence :: .entry :: rest =>
    (blockItems rest).map (·.widen (.sequence tag) (by simp only [List.length_cons]; omega))
  | .blockMapping :: rest => (blockEntries rest).map (·.widen (.mapping tag) (by simp))
  | _ => none
termination_by (tokens.length, 1)

/-- Reads a node, or nothing before some tokens. -/
def nodeBefore (stops : List Token) (inBlock indentless : Bool) (tokens : List Token) :
    Option (Continued Node tokens) :=
  if nextIs tokens stops then some ⟨.blank, tokens, Nat.le_refl _⟩
  else (node inBlock indentless tokens).map Parsed.continued
termination_by (tokens.length, 3)

/-- Reads the items of a block, after the mark of the first. -/
def blockItems (tokens : List Token) : Option (Parsed (List Node) tokens) :=
  match nodeBefore [.entry, .blockEnd] true false tokens with
  | none => none
  | some item =>
    have := item.notLonger
    match h : item.rest with
    | .entry :: rest =>
      have : rest.length < tokens.length := by simp only [h, List.length_cons] at this; omega
      (blockItems rest).map (·.widen (item.value :: ·) (Nat.le_of_lt this))
    | .blockEnd :: rest =>
      some ⟨[item.value], rest, by simp only [h, List.length_cons] at this; omega⟩
    | _ => none
termination_by (tokens.length, 4)

/-- Reads the items that have no block of their own, after the mark of the first. -/
def looseItems (tokens : List Token) : Option (Continued (List Node) tokens) :=
  match nodeBefore (.entry :: blockStops) true false tokens with
  | none => none
  | some item =>
    have := item.notLonger
    match h : item.rest with
    | .entry :: rest =>
      have : rest.length < tokens.length := by simp only [h, List.length_cons] at this; omega
      (looseItems rest).map (fun items =>
        ⟨item.value :: items.value, items.rest, by have := items.notLonger; omega⟩)
    | _ => some ⟨[item.value], item.rest, item.notLonger⟩
termination_by (tokens.length, 4)

/-- Reads the value after a key, if it is there. -/
def valueAfter (stops : List Token) (inBlock : Bool) (tokens : List Token) :
    Option (Continued Node tokens) :=
  match tokens with
  | .value :: rest =>
    (nodeBefore stops inBlock inBlock rest).map (fun value =>
      ⟨value.value, value.rest, by have := value.notLonger; simp only [List.length_cons]; omega⟩)
  | tokens => some ⟨.blank, tokens, Nat.le_refl _⟩
termination_by (tokens.length, 4)

/-- Reads the entries of a block. -/
def blockEntries (tokens : List Token) : Option (Parsed (List (Node × Node)) tokens) :=
  match tokens with
  | .key :: rest =>
    match nodeBefore blockStops true true rest with
    | none => none
    | some key =>
      have := key.notLonger
      match valueAfter blockStops true key.rest with
      | none => none
      | some value =>
        have := value.notLonger
        (blockEntries value.rest).map (·.widen ((key.value, value.value) :: ·)
          (by simp only [List.length_cons]; omega))
  | .blockEnd :: rest => some ⟨[], rest, by simp⟩
  | _ => none
termination_by (tokens.length, 5)

/-- Reads the items of a flow sequence up to its end. -/
def flowItems (tokens : List Token) : Option (Parsed (List Node) tokens) :=
  match tokens with
  | .closeSequence :: rest => some ⟨[], rest, by simp⟩
  | .key :: rest =>
    match flowPair rest with
    | none => none
    | some item =>
      have := item.notLonger
      (moreItems item.rest).map (·.widen (item.value :: ·) (by simp only [List.length_cons]; omega))
  | tokens =>
    match node false false tokens with
    | none => none
    | some item =>
      have := item.shorter
      (moreItems item.rest).map (·.widen (item.value :: ·) (by omega))
termination_by (tokens.length, 5)

/-- Reads the further items of a flow sequence. -/
def moreItems (tokens : List Token) : Option (Parsed (List Node) tokens) :=
  match tokens with
  | .closeSequence :: rest => some ⟨[], rest, by simp⟩
  | .comma :: rest => (flowItems rest).map (·.widen id (by simp))
  | _ => none
termination_by (tokens.length, 5)

/-- Reads an entry that stands as an item in a flow sequence, after the mark of its key. Where the
key is missing, the token in its place is lost. -/
def flowPair (tokens : List Token) : Option (Continued Node tokens) :=
  let stops := [.comma, .closeSequence]
  let pair (key value : Node) : Node := .mapping none [(key, value)]
  if nextIs tokens (.value :: stops) then
    match tokens with
    | [] => none
    | _ :: rest =>
      (valueAfter stops false rest).map (fun value =>
        ⟨pair .blank value.value, value.rest, by have := value.notLonger; simp only [List.length_cons]; omega⟩)
  else
    match node false false tokens with
    | none => none
    | some key =>
      have := key.shorter
      (valueAfter stops false key.rest).map (fun value =>
        ⟨pair key.value value.value, value.rest, by have := value.notLonger; omega⟩)
termination_by (tokens.length, 5)

/-- Reads the entries of a flow mapping up to its end. -/
def flowEntries (tokens : List Token) : Option (Parsed (List (Node × Node)) tokens) :=
  match tokens with
  | .closeMapping :: rest => some ⟨[], rest, by simp⟩
  | .key :: rest =>
    match nodeBefore [.value, .comma, .closeMapping] false false rest with
    | none => none
    | some key =>
      have := key.notLonger
      match valueAfter [.comma, .closeMapping] false key.rest with
      | none => none
      | some value =>
        have := value.notLonger
        (moreEntries value.rest).map (·.widen ((key.value, value.value) :: ·)
          (by simp only [List.length_cons]; omega))
  | tokens =>
    match node false false tokens with
    | none => none
    | some key =>
      have := key.shorter
      (moreEntries key.rest).map (·.widen ((key.value, .blank) :: ·) (by omega))
termination_by (tokens.length, 5)

/-- Reads the further entries of a flow mapping. -/
def moreEntries (tokens : List Token) : Option (Parsed (List (Node × Node)) tokens) :=
  match tokens with
  | .closeMapping :: rest => some ⟨[], rest, by simp⟩
  | .comma :: rest => (flowEntries rest).map (·.widen id (by simp))
  | _ => none
termination_by (tokens.length, 5)

end

namespace Document

/-- Whether nothing but ends of documents is left. -/
def ends (tokens : List Token) : Bool := tokens.all (· == .documentEnd)

/-- Reads the one document of a text, after its start is marked. -/
def afterStart (tokens : List Token) : Option Document :=
  if tokens.isEmpty || nextIs tokens [.directive, .documentStart, .documentEnd] then
    if ends tokens then some ⟨some .blank⟩ else none
  else
    match node true false tokens with
    | none => none
    | some root => if ends root.rest then some ⟨some root.value⟩ else none

/-- Reads the one document of a text. -/
def ofTokens? (tokens : List Token) : Option Document :=
  match tokens with
  | [] => some ⟨none⟩
  | tokens =>
    if nextIs tokens [.directive, .documentStart] then
      match tokens.dropWhile (· == .directive) with
      | .documentStart :: rest => afterStart rest
      | _ => none
    else
      match node true false tokens with
      | none => none
      | some root => if ends root.rest then some ⟨some root.value⟩ else none

end Document

end Stepwise.Yaml

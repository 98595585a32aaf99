/-!
# Tokens of YAML text

What a text is made of: the marks of documents, blocks and flow collections, properties and
scalars. Indentation is already turned into the starts and ends of blocks. Anchors have numbers
instead of names.
-/

namespace Stepwise.Yaml

/-- How a scalar was written. -/
inductive Style where
  | plain
  | quoted
  | literal
  | folded
deriving DecidableEq, Repr

/-- A token. -/
inductive Token where
  | directive
  | documentStart
  | documentEnd
  | blockSequence
  | blockMapping
  | blockEnd
  | openSequence
  | closeSequence
  | openMapping
  | closeMapping
  | entry
  | comma
  | key
  | value
  | alias (number : Nat)
  | anchor (number : Nat)
  | tag (name : String)
  | scalar (style : Style) (text : String)
deriving DecidableEq, Repr

end Stepwise.Yaml

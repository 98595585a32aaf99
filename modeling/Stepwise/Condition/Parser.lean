import Stepwise.Condition.Expr

/-!
# Reading conditions

The grammar, from the loosest binding to the tightest:

* a disjunction is one or more conjunctions with `or` between them,
* a conjunction is one or more negations with `and` between them,
* a negation is `not` before a negation, or a comparison,
* a comparison is one operand, or two with a comparison sign between them,
* an operand is a literal, a path, or a disjunction in parentheses.

Every reader hands back the tokens it left over with the proof that they are fewer, which is why
reading ends.
-/

namespace Stepwise.Condition

/-- A result and the tokens left over, fewer than there were. -/
structure Parsed (α : Type) (tokens : List Lexeme) where
  value : α
  rest : List Lexeme
  shorter : rest.length < tokens.length

/-- A result and the tokens left over, perhaps all of them. -/
structure Continued (α : Type) (tokens : List Lexeme) where
  value : α
  rest : List Lexeme
  notLonger : rest.length ≤ tokens.length

/-- The next token, if there is one. -/
def next? (tokens : List Lexeme) : Option Token := tokens.head?.map Lexeme.token

/-- The place of the next token, or that of the end. -/
def place (stop : Nat) (tokens : List Lexeme) : Nat :=
  match tokens with
  | [] => stop
  | t :: _ => t.position

/-- The literal of a number: an integer if it is one that fits in 63 bits and a sign. -/
def numberLiteral (x : Float) : Json :=
  match Decimal.integer? x with
  | some n => if n.natAbs < signedBound then .int n else .float x
  | none => if x.isFinite then .float x else .null

/-- The place in an array that a number means; numbers too great for one mean the last. -/
def indexOf? (x : Float) : Option Segment :=
  match Decimal.integer? x with
  | some n => if 0 ≤ n then some (.index (min n.toNat (UInt64.size - 1))) else none
  | none => none

/-- The segment that a token after a dot means. -/
def dotted? : Token → Option Segment
  | .word name => some (.field name)
  | .number x => indexOf? x
  | _ => none

/-- The segment that a token in brackets means. -/
def bracketed? : Token → Option Segment
  | .number x => indexOf? x
  | .text key => some (.field key)
  | _ => none

/-- The literal that a token stands for. -/
def literal? : Token → Option Json
  | .number x => some (numberLiteral x)
  | .text s => some (.str s)
  | .yes => some (.bool true)
  | .no => some (.bool false)
  | .null => some .null
  | _ => none

/-- Puts a segment in front of a path that was read after it. -/
def Continued.cons {tokens more : List Lexeme} (segment : Segment)
    (after : Continued (List Segment) more) (h : more.length ≤ tokens.length) :
    Continued (List Segment) tokens :=
  ⟨segment :: after.value, after.rest, Nat.le_trans after.notLonger h⟩

/-- Reads the segments after the first name of a path. -/
def segments (stop : Nat) (tokens : List Lexeme) :
    Except Problem (Continued (List Segment) tokens) :=
  match tokens with
  | ⟨.dot, _⟩ :: [] => .error ⟨stop, .noField⟩
  | ⟨.dot, _⟩ :: t :: more =>
    match dotted? t.token with
    | none => .error ⟨place stop more, .noField⟩
    | some segment =>
      (segments stop more).map (·.cons segment (by simp only [List.length_cons]; omega))
  | ⟨.openBracket, _⟩ :: [] => .error ⟨stop, .noKey⟩
  | ⟨.openBracket, _⟩ :: t :: more =>
    match bracketed? t.token with
    | none => .error ⟨place stop more, .noKey⟩
    | some segment =>
      match more with
      | ⟨.closeBracket, _⟩ :: more =>
        (segments stop more).map (·.cons segment (by simp only [List.length_cons]; omega))
      | more => .error ⟨place stop more, .expected .closeBracket (next? more)⟩
  | tokens => .ok ⟨[], tokens, Nat.le_refl _⟩

/-- One term as it is, and several as one condition. -/
def joined (join : List Expr → Expr) (first : Expr) (more : List Expr) : Expr :=
  if more.isEmpty then first else join (first :: more)

mutual

/-- Reads conjunctions with `or` between them. -/
def disjunction (stop : Nat) (tokens : List Lexeme) : Except Problem (Parsed Expr tokens) :=
  match conjunction stop tokens with
  | .error problem => .error problem
  | .ok first =>
    have := first.shorter
    match disjuncts stop first.rest with
    | .error problem => .error problem
    | .ok more =>
      .ok ⟨joined .anyOf first.value more.value, more.rest,
        Nat.lt_of_le_of_lt more.notLonger first.shorter⟩
termination_by (tokens.length, 4)

/-- Reads the terms that each follow an `or`. -/
def disjuncts (stop : Nat) (tokens : List Lexeme) : Except Problem (Continued (List Expr) tokens) :=
  match tokens with
  | ⟨.or, _⟩ :: after =>
    match conjunction stop after with
    | .error problem => .error problem
    | .ok term =>
      have := term.shorter
      match disjuncts stop term.rest with
      | .error problem => .error problem
      | .ok more =>
        .ok ⟨term.value :: more.value, more.rest,
          Nat.le_succ_of_le (Nat.le_trans more.notLonger (Nat.le_of_lt term.shorter))⟩
  | tokens => .ok ⟨[], tokens, Nat.le_refl _⟩
termination_by (tokens.length, 0)

/-- Reads negations with `and` between them. -/
def conjunction (stop : Nat) (tokens : List Lexeme) : Except Problem (Parsed Expr tokens) :=
  match negation stop tokens with
  | .error problem => .error problem
  | .ok first =>
    have := first.shorter
    match conjuncts stop first.rest with
    | .error problem => .error problem
    | .ok more =>
      .ok ⟨joined .allOf first.value more.value, more.rest,
        Nat.lt_of_le_of_lt more.notLonger first.shorter⟩
termination_by (tokens.length, 3)

/-- Reads the terms that each follow an `and`. -/
def conjuncts (stop : Nat) (tokens : List Lexeme) : Except Problem (Continued (List Expr) tokens) :=
  match tokens with
  | ⟨.and, _⟩ :: after =>
    match negation stop after with
    | .error problem => .error problem
    | .ok term =>
      have := term.shorter
      match conjuncts stop term.rest with
      | .error problem => .error problem
      | .ok more =>
        .ok ⟨term.value :: more.value, more.rest,
          Nat.le_succ_of_le (Nat.le_trans more.notLonger (Nat.le_of_lt term.shorter))⟩
  | tokens => .ok ⟨[], tokens, Nat.le_refl _⟩
termination_by (tokens.length, 0)

/-- Reads a comparison with any number of `not` before it. -/
def negation (stop : Nat) (tokens : List Lexeme) : Except Problem (Parsed Expr tokens) :=
  match tokens with
  | ⟨.not, _⟩ :: after =>
    match negation stop after with
    | .error problem => .error problem
    | .ok term => .ok ⟨.not term.value, term.rest, Nat.lt_succ_of_lt term.shorter⟩
  | tokens => comparison stop tokens
termination_by (tokens.length, 2)

/-- Reads one operand, or two with a comparison sign between them. -/
def comparison (stop : Nat) (tokens : List Lexeme) : Except Problem (Parsed Expr tokens) :=
  match operand stop tokens with
  | .error problem => .error problem
  | .ok left =>
    have := left.shorter
    match h : left.rest with
    | ⟨.comparison op, _⟩ :: after =>
      have : after.length < left.rest.length := by rw [h]; exact Nat.lt_succ_self _
      match operand stop after with
      | .error problem => .error problem
      | .ok right =>
        .ok ⟨.compare left.value op right.value, right.rest,
          Nat.lt_trans right.shorter (Nat.lt_trans this left.shorter)⟩
    | _ => .ok left
termination_by (tokens.length, 1)

/-- Reads a literal, a path, or a condition in parentheses. -/
def operand (stop : Nat) (tokens : List Lexeme) : Except Problem (Parsed Expr tokens) :=
  match tokens with
  | [] => .error ⟨stop, .noValue none⟩
  | ⟨.openParen, _⟩ :: after =>
    match disjunction stop after with
    | .error problem => .error problem
    | .ok inner =>
      match h : inner.rest with
      | ⟨.closeParen, _⟩ :: rest =>
        .ok ⟨inner.value, rest, by
          have := inner.shorter
          rw [h] at this
          simp only [List.length_cons] at this ⊢
          omega⟩
      | rest => .error ⟨place stop rest, .expected .closeParen (next? rest)⟩
  | ⟨.word name, _⟩ :: after =>
    match segments stop after with
    | .error problem => .error problem
    | .ok path => .ok ⟨.path (.field name :: path.value), path.rest, Nat.lt_succ_of_le path.notLonger⟩
  | ⟨token, position⟩ :: after =>
    match literal? token with
    | some value => .ok ⟨.literal value, after, Nat.lt_succ_self _⟩
    | none => .error ⟨position, .noValue (some token)⟩
termination_by (tokens.length, 0)

end

/-- Reads a whole row of tokens. -/
def readTokens (stop : Nat) (tokens : List Lexeme) : Except Problem Expr :=
  if tokens.isEmpty then .error ⟨stop, .empty⟩
  else
    match disjunction stop tokens with
    | .error problem => .error problem
    | .ok parsed =>
      if parsed.rest.isEmpty then .ok parsed.value
      else .error ⟨place stop parsed.rest, .unexpected (next? parsed.rest)⟩

/-- Reads a condition. -/
def compile (text : String) : Except Fault Expr :=
  match (lex text.toList 0).bind (readTokens text.length) with
  | .ok e => .ok e
  | .error problem => .error (.badExpression text problem.position problem.complaint.message)

end Stepwise.Condition

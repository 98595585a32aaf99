import Stepwise.Decimal.Layout
import Stepwise.Text.Character
import Stepwise.Text.Quoted

/-!
# Tokens of conditions

A condition is a row of numbers, quoted texts, words and marks, with blanks between them. `lex`
reads the whole row, each token with the place of its first character.
-/

namespace Stepwise.Condition

open Text

/-- How two values are compared. -/
inductive Comparison where
  | equal
  | different
  | less
  | atMost
  | greater
  | atLeast
  | memberOf
deriving DecidableEq, Repr

namespace Comparison

/-- How a comparison is written. -/
def symbol : Comparison → String
  | .equal => "=="
  | .different => "!="
  | .less => "<"
  | .atMost => "<="
  | .greater => ">"
  | .atLeast => ">="
  | .memberOf => "in"

/-- The short name in messages about tokens. -/
def name : Comparison → String
  | .equal => "Eq"
  | .different => "Ne"
  | .less => "Lt"
  | .atMost => "Le"
  | .greater => "Gt"
  | .atLeast => "Ge"
  | .memberOf => "In"

end Comparison

/-- One token. -/
inductive Token where
  | number (value : Float)
  | text (value : String)
  | word (name : String)
  | yes
  | no
  | null
  | dot
  | openBracket
  | closeBracket
  | openParen
  | closeParen
  | comparison (op : Comparison)
  | and
  | or
  | not

/-- A token in messages. -/
def Token.describe : Token → String
  | .number x => "Number(" ++ Decimal.token.render x ++ ")"
  | .text s => "Str(" ++ quote s ++ ")"
  | .word s => "Ident(" ++ quote s ++ ")"
  | .yes => "True"
  | .no => "False"
  | .null => "Null"
  | .dot => "Dot"
  | .openBracket => "LBracket"
  | .closeBracket => "RBracket"
  | .openParen => "LParen"
  | .closeParen => "RParen"
  | .comparison op => "Cmp(" ++ op.name ++ ")"
  | .and => "And"
  | .or => "Or"
  | .not => "Not"

/-- The next token in messages, or the end of the condition. -/
def describeNext : Option Token → String
  | some t => t.describe
  | none => "Eof"

/-- A token and the place of its first character. -/
structure Lexeme where
  token : Token
  position : Nat

/-- Why a text is no condition. -/
inductive Complaint where
  | empty
  | unexpected (found : Option Token)
  | expected (wanted : Token) (found : Option Token)
  | noValue (found : Option Token)
  | noField
  | noKey
  | badCharacter (c : Char)
  | unterminated

/-- What is told of a condition that cannot be read. -/
def Complaint.message : Complaint → String
  | .empty => "empty expression"
  | .unexpected found => "unexpected " ++ describeNext found
  | .expected wanted found =>
    "expected " ++ wanted.describe ++ ", found " ++ describeNext found
  | .noValue found => "expected a value, found " ++ describeNext found
  | .noField => "expected a field name after '.'"
  | .noKey => "expected an index or a quoted key"
  | .badCharacter c => "unexpected character '" ++ c.toString ++ "'"
  | .unterminated => "unterminated string"

/-- A complaint about a place in a condition. -/
structure Problem where
  position : Nat
  complaint : Complaint

/-- The token of a word: a reserved word or a name. -/
def Token.ofWord (s : String) : Token :=
  if s = "and" then .and
  else if s = "or" then .or
  else if s = "not" then .not
  else if s = "in" then .comparison .memberOf
  else if s = "true" ∨ s = "True" then .yes
  else if s = "false" ∨ s = "False" then .no
  else if s = "null" ∨ s = "None" then .null
  else .word s

/-- The number of digits before and after a point. -/
def numberValue (negative : Bool) (whole part : List Char) : Float :=
  Decimal.toFloat negative (digitsValue (whole ++ part)) (-part.length)

/-- Digits at the front, and those after a point if a digit follows the point; with what is
left. -/
def readDigits (cs : List Char) : List Char × List Char × List Char :=
  let whole := cs.takeWhile isDigit
  match cs.dropWhile isDigit with
  | '.' :: d :: rest =>
    if isDigit d then (whole, (d :: rest).takeWhile isDigit, (d :: rest).dropWhile isDigit)
    else (whole, [], '.' :: d :: rest)
  | rest => (whole, [], rest)

/-- The characters of a quoted text up to its closing quote, and what follows it. A character
after a backslash stands for itself. -/
def readQuoted (quote : Char) : List Char → Option (List Char × List Char)
  | [] => none
  | '\\' :: c :: rest => (readQuoted quote rest).map (fun (text, rest) => (c :: text, rest))
  | c :: rest =>
    if c = quote then some ([], rest)
    else (readQuoted quote rest).map (fun (text, rest) => (c :: text, rest))

/-- A mark of one or two characters at the front, with what follows it. -/
def readMark? : List Char → Option (Token × List Char)
  | '.' :: r => some (.dot, r)
  | '[' :: r => some (.openBracket, r)
  | ']' :: r => some (.closeBracket, r)
  | '(' :: r => some (.openParen, r)
  | ')' :: r => some (.closeParen, r)
  | '=' :: '=' :: r => some (.comparison .equal, r)
  | '!' :: '=' :: r => some (.comparison .different, r)
  | '!' :: r => some (.not, r)
  | '<' :: '=' :: r => some (.comparison .atMost, r)
  | '<' :: r => some (.comparison .less, r)
  | '>' :: '=' :: r => some (.comparison .atLeast, r)
  | '>' :: r => some (.comparison .greater, r)
  | '&' :: '&' :: r => some (.and, r)
  | '|' :: '|' :: r => some (.or, r)
  | _ => none

/-- The token at the front of a text that starts with `c`, and what follows it. -/
def readToken (c : Char) (rest : List Char) : Except Complaint (Token × List Char) :=
  match readMark? (c :: rest) with
  | some found => .ok found
  | none =>
    if c = '"' ∨ c = '\x27' then
      match readQuoted c rest with
      | some (text, rest) => .ok (.text (String.ofList text), rest)
      | none => .error .unterminated
    else if c = '-' ∧ (rest.head?.map isDigit).getD false then
      let (whole, part, rest) := readDigits rest
      .ok (.number (numberValue true whole part), rest)
    else if isDigit c then
      let (whole, part, rest) := readDigits (c :: rest)
      .ok (.number (numberValue false whole part), rest)
    else if isLetter c ∨ c = '_' then
      .ok (Token.ofWord (String.ofList (c :: rest.takeWhile isNameChar)), rest.dropWhile isNameChar)
    else .error (.badCharacter c)

theorem length_readQuoted {q : Char} {cs text rest : List Char}
    (h : readQuoted q cs = some (text, rest)) : rest.length < cs.length := by
  fun_induction readQuoted q cs generalizing text rest with
  | case1 => simp at h
  | case2 c r ih =>
    obtain ⟨⟨t, u⟩, hu, he⟩ := Option.map_eq_some_iff.1 h
    obtain ⟨-, rfl⟩ := Prod.mk.inj he
    have := ih hu
    simp only [List.length_cons]
    omega
  | case3 r =>
    obtain ⟨-, rfl⟩ := Prod.mk.inj (Option.some.inj h)
    simp
  | case4 c r _ _ ih =>
    obtain ⟨⟨t, u⟩, hu, he⟩ := Option.map_eq_some_iff.1 h
    obtain ⟨-, rfl⟩ := Prod.mk.inj he
    have := ih hu
    simp only [List.length_cons]
    omega

theorem length_readDigits_le (cs : List Char) : (readDigits cs).2.2.length ≤ cs.length := by
  have h := length_dropWhile_le isDigit cs
  unfold readDigits
  split
  · next d rest hd =>
    split
    · have h2 := length_dropWhile_le isDigit (d :: rest)
      rw [hd] at h
      simp only [List.length_cons] at h h2 ⊢
      omega
    · rw [hd] at h
      exact h
  · exact h

theorem length_readDigits_lt {c : Char} {cs : List Char} (h : isDigit c = true) :
    (readDigits (c :: cs)).2.2.length < (c :: cs).length := by
  have hd : (c :: cs).dropWhile isDigit = cs.dropWhile isDigit := by simp [h]
  have h1 := length_dropWhile_le isDigit cs
  unfold readDigits
  rw [hd]
  split
  · next d rest e =>
    rw [e] at h1
    split
    · have h2 := length_dropWhile_le isDigit (d :: rest)
      simp only [List.length_cons] at h1 h2 ⊢
      omega
    · simp only [List.length_cons] at h1 ⊢
      omega
  · simp only [List.length_cons]
    omega

theorem length_readMark? {cs rest : List Char} {t : Token} (h : readMark? cs = some (t, rest)) :
    rest.length < cs.length := by
  unfold readMark? at h
  split at h <;> simp at h <;> obtain ⟨-, rfl⟩ := h <;> simp only [List.length_cons] <;> omega

theorem length_readToken {c : Char} {cs rest : List Char} {t : Token}
    (h : readToken c cs = .ok (t, rest)) : rest.length ≤ cs.length := by
  unfold readToken at h
  split at h
  · next found hm =>
    cases h
    have := length_readMark? hm
    simp only [List.length_cons] at this
    omega
  · split at h
    · split at h
      · next hq =>
        have := length_readQuoted hq
        simp only [Except.ok.injEq, Prod.mk.injEq] at h
        obtain ⟨-, rfl⟩ := h
        omega
      · cases h
    · split at h
      · simp only [Except.ok.injEq, Prod.mk.injEq] at h
        obtain ⟨-, rfl⟩ := h
        exact length_readDigits_le cs
      · split at h
        · next hd =>
          simp only [Except.ok.injEq, Prod.mk.injEq] at h
          obtain ⟨-, rfl⟩ := h
          exact Nat.le_of_lt_succ (length_readDigits_lt hd)
        · split at h
          · simp only [Except.ok.injEq, Prod.mk.injEq] at h
            obtain ⟨-, rfl⟩ := h
            exact length_dropWhile_le _ _
          · cases h

/-- Reads the tokens of a text whose first character has the place `pos`. -/
def lex (cs : List Char) (pos : Nat) : Except Problem (List Lexeme) :=
  match cs with
  | [] => .ok []
  | c :: rest =>
    if isBlank c then lex rest (pos + 1)
    else
      match h : readToken c rest with
      | .error complaint => .error ⟨pos, complaint⟩
      | .ok (token, after) =>
        have := length_readToken h
        match lex after (pos + (rest.length + 1 - after.length)) with
        | .error e => .error e
        | .ok more => .ok (⟨token, pos⟩ :: more)
termination_by cs.length

end Stepwise.Condition

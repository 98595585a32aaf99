import Mathlib.Logic.ExistsUnique
import Stepwise.Proofs.Condition.Grammar

/-!
# Conditions that are read

Whatever the grammar of conditions derives is read up to its end, wherever the next token does not
go on with it (`Stops`): `accepts_of_derives`, by induction on the derivation. So the reader of
conditions takes just what is derivable, with no second meaning and nothing left over
(`readTokens_iff`).
-/

namespace Stepwise.Condition

section

variable {stop : Nat} {tokens used rest : List Lexeme} {ts : List Token} {e : Expr}
  {level upper lower : Level} {sep t : Token} {join : List Expr → Expr}
  {parts : List (List Token × Expr)} {value : Json}

/-! ## Where conditions end -/

/-- How loosely the conditions of a level bind. -/
def Level.rank : Level → Nat
  | .operand => 1
  | .comparison => 2
  | .negation => 2
  | .conjunction => 3
  | .disjunction => 4

/-- How loosely a condition must bind for a token to go on with it; no condition binds as loosely as
that for a token that never goes on with one. -/
def Token.rank : Token → Nat
  | .dot | .openBracket => 1
  | .comparison _ => 2
  | .and => 3
  | .or => 4
  | _ => 5

/-- The next token goes on with no condition of a level, nor with one at its end. -/
def Stops (level : Level) (rest : List Lexeme) : Prop :=
  ∀ t, next? rest = some t → level.rank < t.rank

theorem Stops.nil : Stops level [] := nofun

theorem stops_cons {position : Nat} (h : level.rank < t.rank) :
    Stops level (⟨t, position⟩ :: rest) := by
  rintro _ ⟨⟩
  exact h

theorem Stops.mono (h : Stops upper rest) (tighter : lower.rank ≤ upper.rank) : Stops lower rest :=
  fun t next => Nat.lt_of_le_of_lt tighter (h t next)

theorem Stops.ne (h : Stops level rest) (goesOn : t.rank ≤ level.rank) : next? rest ≠ some t :=
  fun next => Nat.lt_irrefl _ (Nat.lt_of_lt_of_le (h t next) goesOn)

/-! ## Readers -/

/-- The reader of a level. -/
def reader (stop : Nat) : Level → (tokens : List Lexeme) → Except Problem (Parsed Expr tokens)
  | .disjunction => disjunction stop
  | .conjunction => conjunction stop
  | .negation => negation stop
  | .comparison => comparison stop
  | .operand => operand stop

/-- Of some tokens the reader of a level takes a condition, and it leaves the rest. -/
def Takes (stop : Nat) (level : Level) (tokens : List Lexeme) (e : Expr) (rest : List Lexeme) :
    Prop :=
  ∃ shorter, reader stop level tokens = .ok ⟨e, rest, shorter⟩

/-- A reader of terms, each after a joining token. -/
abbrev RowReader := (tokens : List Lexeme) → Except Problem (Continued (List Expr) tokens)

/-- Of some tokens a reader of terms takes these, and it leaves the rest. -/
def RowReader.Takes (row : RowReader) (tokens : List Lexeme) (terms : List Expr)
    (rest : List Lexeme) : Prop :=
  ∃ notLonger, row tokens = .ok ⟨terms, rest, notLonger⟩

/-- A reader of terms goes on as long as there is a joining token, and what it has taken goes
together with the term before. -/
structure Rows (stop : Nat) (upper lower : Level) (sep : Token) (join : List Expr → Expr)
    (row : RowReader) : Prop where
  looser : lower.rank < sep.rank
  goesOn : sep.rank = upper.rank
  none : ∀ {tokens}, next? tokens ≠ some sep → row.Takes tokens [] tokens
  more : ∀ {position more e mid terms rest}, Takes stop lower more e mid →
    row.Takes mid terms rest → row.Takes (⟨sep, position⟩ :: more) (e :: terms) rest
  whole : ∀ {tokens e mid terms rest}, Takes stop lower tokens e mid → row.Takes mid terms rest →
    Takes stop upper tokens (joined join e terms) rest

theorem rows_or (stop : Nat) :
    Rows stop .disjunction .conjunction .or .anyOf (disjuncts stop) where
  looser := by decide
  goesOn := rfl
  none {tokens} other := by
    refine ⟨Nat.le_refl _, ?_⟩
    rw [disjuncts.eq_def]
    split
    · exact absurd rfl other
    · rfl
  more := by
    rintro position more e mid terms rest ⟨shorter, first⟩ ⟨notLonger, others⟩
    refine ⟨?_, ?_⟩
    · exact Nat.le_succ_of_le (Nat.le_trans notLonger (Nat.le_of_lt shorter))
    · change conjunction stop more = _ at first
      rw [disjuncts, first]
      dsimp only
      rw [others]
  whole := by
    rintro tokens e mid terms rest ⟨shorter, first⟩ ⟨notLonger, others⟩
    refine ⟨Nat.lt_of_le_of_lt notLonger shorter, ?_⟩
    change conjunction stop tokens = _ at first
    change disjunction stop tokens = _
    rw [disjunction, first]
    dsimp only
    rw [others]

theorem rows_and (stop : Nat) :
    Rows stop .conjunction .negation .and .allOf (conjuncts stop) where
  looser := by decide
  goesOn := rfl
  none {tokens} other := by
    refine ⟨Nat.le_refl _, ?_⟩
    rw [conjuncts.eq_def]
    split
    · exact absurd rfl other
    · rfl
  more := by
    rintro position more e mid terms rest ⟨shorter, first⟩ ⟨notLonger, others⟩
    refine ⟨?_, ?_⟩
    · exact Nat.le_succ_of_le (Nat.le_trans notLonger (Nat.le_of_lt shorter))
    · change negation stop more = _ at first
      rw [conjuncts, first]
      dsimp only
      rw [others]
  whole := by
    rintro tokens e mid terms rest ⟨shorter, first⟩ ⟨notLonger, others⟩
    refine ⟨Nat.lt_of_le_of_lt notLonger shorter, ?_⟩
    change negation stop tokens = _ at first
    change conjunction stop tokens = _
    rw [conjunction, first]
    dsimp only
    rw [others]

theorem exists_cons_of_map (h : used.map Lexeme.token = t :: ts) :
    ∃ position others, used = ⟨t, position⟩ :: others ∧ others.map Lexeme.token = ts := by
  obtain ⟨⟨_, position⟩, others, rfl, rfl, tail⟩ := List.map_eq_cons_iff.1 h
  exact ⟨position, others, rfl, tail⟩

/-- A condition is read up to its end wherever the next token does not go on with it. -/
def Accepts (stop : Nat) (level : Level) (ts : List Token) (e : Expr) : Prop :=
  ∀ used rest, used.map Lexeme.token = ts → Stops level rest → Takes stop level (used ++ rest) e rest

section

variable {row : RowReader}

/-- Before a joining token, and where a condition ends, no term goes on. -/
theorem Rows.stops (rows : Rows stop upper lower sep join row) (stops : Stops upper rest)
    (same : used.map Lexeme.token = after sep parts) : Stops lower (used ++ rest) := by
  have looser : lower.rank ≤ upper.rank := by
    rw [← rows.goesOn]
    exact Nat.le_of_lt rows.looser
  cases parts with
  | nil =>
    rw [List.map_eq_nil_iff.1 same]
    exact stops.mono looser
  | cons p parts =>
    obtain ⟨position, others, rfl, -⟩ := exists_cons_of_map same
    exact stops_cons rows.looser

theorem Rows.takes (rows : Rows stop upper lower sep join row)
    (each : ∀ p ∈ parts, Accepts stop lower p.1 p.2)
    (same : used.map Lexeme.token = after sep parts)
    (stops : Stops upper rest) : row.Takes (used ++ rest) (parts.map Prod.snd) rest := by
  induction parts generalizing used with
  | nil =>
    rw [List.map_eq_nil_iff.1 same]
    exact rows.none (stops.ne (Nat.le_of_eq rows.goesOn))
  | cons p parts ih =>
    rw [List.forall_mem_cons] at each
    obtain ⟨position, others, rfl, terms⟩ := exists_cons_of_map same
    obtain ⟨front, back, rfl, first, others⟩ := List.map_eq_append_iff.1 terms
    rw [List.cons_append, List.append_assoc]
    exact rows.more (each.1 front _ first (rows.stops stops others)) (ih each.2 others)

/-- Terms with joining tokens between them are read as one condition. -/
theorem Rows.accepts (rows : Rows stop upper lower sep join row) (first : Accepts stop lower ts e)
    (each : ∀ p ∈ parts, Accepts stop lower p.1 p.2) :
    Accepts stop upper (ts ++ after sep parts) (joined join e (parts.map Prod.snd)) := by
  intro used rest same stops
  obtain ⟨front, back, rfl, own, others⟩ := List.map_eq_append_iff.1 same
  rw [List.append_assoc]
  exact rows.whole (first front _ own (rows.stops stops others)) (rows.takes each others stops)

theorem Rows.accepts_one (rows : Rows stop upper lower sep join row) (h : Accepts stop lower ts e) :
    Accepts stop upper ts e := by
  have lone := rows.accepts h (List.forall_mem_nil _)
  rwa [after, List.flatMap_nil, List.append_nil] at lone

theorem Rows.accepts_several (rows : Rows stop upper lower sep join row)
    (several : 2 ≤ parts.length)
    (each : ∀ p ∈ parts, Accepts stop lower p.1 p.2) :
    Accepts stop upper ([sep].intercalate (parts.map Prod.fst)) (join (parts.map Prod.snd)) := by
  match parts, several with
  | first :: second :: more, _ =>
    rw [List.forall_mem_cons] at each
    rw [intercalate_eq]
    exact rows.accepts each.1 each.2

end

theorem segments_of_trail {path : List Segment} (h : Trail ts path) (stop : Nat)
    (same : used.map Lexeme.token = ts) (stops : Stops .operand rest) :
    ∃ notLonger, segments stop (used ++ rest) = .ok ⟨path, rest, notLonger⟩ := by
  induction h generalizing used with
  | nil =>
    rw [List.map_eq_nil_iff.1 same, List.nil_append]
    refine ⟨Nat.le_refl _, ?_⟩
    have noDot := stops.ne (t := .dot) (Nat.le_refl _)
    have noBracket := stops.ne (t := .openBracket) (Nat.le_refl _)
    rw [segments.eq_def]
    split
    · exact absurd rfl noDot
    · exact absurd rfl noDot
    · exact absurd rfl noBracket
    · exact absurd rfl noBracket
    · rfl
  | dot here more ih =>
    obtain ⟨position, _, rfl, afterDot⟩ := exists_cons_of_map same
    obtain ⟨position', others, rfl, afterName⟩ := exists_cons_of_map afterDot
    obtain ⟨notLonger, read⟩ := ih afterName
    refine ⟨?_, ?_⟩
    · simp only [List.cons_append, List.length_cons]
      omega
    · simp only [List.cons_append, segments, dotted?_eq_some_iff.2 here]
      rw [read]
      rfl
  | brackets here more ih =>
    obtain ⟨position, _, rfl, afterOpen⟩ := exists_cons_of_map same
    obtain ⟨position', _, rfl, afterKey⟩ := exists_cons_of_map afterOpen
    obtain ⟨place, others, rfl, afterClose⟩ := exists_cons_of_map afterKey
    obtain ⟨notLonger, read⟩ := ih afterClose
    refine ⟨?_, ?_⟩
    · simp only [List.cons_append, List.length_cons]
      omega
    · simp only [List.cons_append, segments, bracketed?_eq_some_iff.2 here]
      rw [read]
      rfl

/-! ## One reader after another -/

theorem takes_literal {position : Nat} (h : Literal t value) :
    Takes stop .operand (⟨t, position⟩ :: rest) (.literal value) rest := by
  refine ⟨Nat.lt_succ_self _, ?_⟩
  change operand stop _ = _
  have found := literal?_eq_some_iff.2 h
  cases h <;> simp only [operand, found]

theorem takes_path {name : String} {position : Nat} {path : List Segment} {more : List Lexeme}
    (h : ∃ notLonger, segments stop more = .ok ⟨path, rest, notLonger⟩) :
    Takes stop .operand (⟨.word name, position⟩ :: more) (.path (.field name :: path)) rest := by
  obtain ⟨notLonger, read⟩ := h
  refine ⟨Nat.lt_succ_of_le notLonger, ?_⟩
  change operand stop _ = _
  rw [operand, read]

theorem takes_group {position place : Nat} {more : List Lexeme}
    (h : Takes stop .disjunction more e (⟨.closeParen, place⟩ :: rest)) :
    Takes stop .operand (⟨.openParen, position⟩ :: more) e rest := by
  obtain ⟨shorter, read⟩ := h
  change disjunction stop more = _ at read
  refine ⟨?_, ?_⟩
  · simp only [List.length_cons] at shorter ⊢
    omega
  · change operand stop _ = _
    rw [operand, read]

theorem takes_alone (h : Takes stop .operand tokens e rest) (stops : Stops .comparison rest) :
    Takes stop .comparison tokens e rest := by
  obtain ⟨shorter, read⟩ := h
  refine ⟨shorter, ?_⟩
  change operand stop tokens = _ at read
  change comparison stop tokens = _
  rw [comparison, read]
  dsimp only
  split
  · next op _ _ =>
    exact absurd rfl (stops.ne (t := .comparison op) (Nat.le_refl _))
  · rfl

theorem takes_compare {a b : Expr} {op : Comparison} {position : Nat} {more : List Lexeme}
    (left : Takes stop .operand tokens a (⟨.comparison op, position⟩ :: more))
    (right : Takes stop .operand more b rest) :
    Takes stop .comparison tokens (.compare a op b) rest := by
  obtain ⟨shorter, read⟩ := left
  obtain ⟨shorter', read'⟩ := right
  change operand stop tokens = _ at read
  change operand stop more = _ at read'
  refine ⟨?_, ?_⟩
  · exact Nat.lt_trans shorter' (Nat.lt_of_succ_lt shorter)
  · change comparison stop tokens = _
    rw [comparison, read]
    dsimp only
    rw [read']

theorem takes_not {position : Nat} (h : Takes stop .negation tokens e rest) :
    Takes stop .negation (⟨.not, position⟩ :: tokens) (.not e) rest := by
  obtain ⟨shorter, read⟩ := h
  refine ⟨Nat.lt_succ_of_lt shorter, ?_⟩
  change negation stop tokens = _ at read
  change negation stop _ = _
  rw [negation, read]

/-- No comparison begins with `not`. -/
theorem takes_plain (h : Takes stop .comparison tokens e rest) :
    Takes stop .negation tokens e rest := by
  obtain ⟨shorter, read⟩ := h
  refine ⟨shorter, ?_⟩
  change comparison stop tokens = _ at read
  change negation stop tokens = _
  rw [negation.eq_def]
  split
  · rw [comparison, operand.eq_def] at read
    cases read
  · exact read

/-- Whatever is derivable is read up to its end. -/
theorem accepts_of_derives (h : Derives level ts e) (stop : Nat) : Accepts stop level ts e := by
  induction h with
  | anyOf several each ih => exact (rows_or stop).accepts_several several ih
  | oneTerm h ih => exact (rows_or stop).accepts_one ih
  | allOf several each ih => exact (rows_and stop).accepts_several several ih
  | oneFactor h ih => exact (rows_and stop).accepts_one ih
  | not h ih =>
    intro used rest same stops
    obtain ⟨position, others, rfl, tail⟩ := exists_cons_of_map same
    exact takes_not (ih others rest tail stops)
  | plain h ih => exact fun used rest same stops => takes_plain (ih used rest same stops)
  | compare left right ihLeft ihRight =>
    intro used rest same stops
    obtain ⟨front, back, rfl, first, tail⟩ := List.map_eq_append_iff.1 same
    obtain ⟨position, others, rfl, second⟩ := exists_cons_of_map tail
    rw [List.append_assoc, List.cons_append]
    exact takes_compare (ihLeft front _ first (stops_cons (Nat.lt_succ_self 1)))
      (ihRight others rest second (stops.mono (by decide)))
  | alone h ih =>
    exact fun used rest same stops => takes_alone (ih used rest same (stops.mono (by decide))) stops
  | literal h =>
    intro used rest same stops
    obtain ⟨position, others, rfl, tail⟩ := exists_cons_of_map same
    rw [List.map_eq_nil_iff.1 tail]
    exact takes_literal h
  | path h =>
    intro used rest same stops
    obtain ⟨position, others, rfl, tail⟩ := exists_cons_of_map same
    exact takes_path (segments_of_trail h stop tail stops)
  | group h ih =>
    intro used rest same stops
    obtain ⟨position, _, rfl, afterOpen⟩ := exists_cons_of_map same
    obtain ⟨inner, _, rfl, first, close⟩ := List.map_eq_append_iff.1 afterOpen
    obtain ⟨place, others, rfl, afterClose⟩ := exists_cons_of_map close
    rw [List.map_eq_nil_iff.1 afterClose, List.cons_append, List.append_assoc]
    exact takes_group (ih inner _ first (stops_cons (by decide)))

/-! ## Whole conditions -/

/-- The reader of conditions takes just the derivable rows of tokens, each with what it derives. -/
theorem readTokens_eq_ok_iff :
    readTokens stop tokens = .ok e ↔ Derives .disjunction (tokens.map Lexeme.token) e := by
  constructor
  · intro h
    unfold readTokens at h
    split at h
    · cases h
    split at h
    · cases h
    next parsed read =>
    split at h
    · next all =>
      cases h
      obtain ⟨used, cut, derives⟩ := reads_disjunction read
      rw [List.isEmpty_iff.1 all, List.append_nil] at cut
      exact cut ▸ derives
    · cases h
  · intro derives
    have taken := accepts_of_derives derives stop tokens [] rfl .nil
    rw [List.append_nil] at taken
    obtain ⟨shorter, read⟩ := taken
    change disjunction stop tokens = _ at read
    have nonempty : tokens.isEmpty = false := by
      cases tokens with
      | nil => exact absurd shorter (Nat.lt_irrefl _)
      | cons => rfl
    rw [readTokens, nonempty, read]
    rfl

/-- A row of tokens is read as a condition if and only if the grammar derives that condition from
it. So the grammar derives one condition at most from a row of tokens, and if it derives none then
the row is refused. -/
theorem readTokens_iff (stop : Nat) (tokens : List Lexeme) :
    (∀ e, readTokens stop tokens = .ok e ↔ Derives .disjunction (tokens.map Lexeme.token) e) ∧
      ((∃! e, Derives .disjunction (tokens.map Lexeme.token) e) ∨
        (∀ e, ¬Derives .disjunction (tokens.map Lexeme.token) e) ∧
          ∃ problem, readTokens stop tokens = .error problem) := by
  have exact (e : Expr) :
      readTokens stop tokens = .ok e ↔ Derives .disjunction (tokens.map Lexeme.token) e :=
    readTokens_eq_ok_iff
  refine ⟨exact, ?_⟩
  cases outcome : readTokens stop tokens with
  | ok e =>
    refine .inl ⟨e, (exact e).1 outcome, fun other derives => ?_⟩
    have same := outcome.symm.trans ((exact other).2 derives)
    exact (Except.ok.inj same).symm
  | error problem =>
    refine .inr ⟨fun e derives => ?_, problem, rfl⟩
    have contrary := outcome.symm.trans ((exact e).2 derives)
    cases contrary

end

end Stepwise.Condition

import Stepwise.Proofs.Condition.Path

/-!
# The grammar of conditions

The grammar of conditions as a relation between rows of tokens and conditions, `Derives`. What a
reader has read of a row is derivable from the tokens that it has used up: `reads_disjunction`, and
the same for the other levels, by the recursion of the readers.
-/

namespace Stepwise.Condition

/-! ## The grammar -/

/-- The place that a number means: it is whole and not negative, and the last place if it is too
great for one. -/
inductive Place (x : Float) : Segment → Prop
  | whole {n : Nat} (same : Decimal.integer? x = some (n : Int)) :
      Place x (.index (min n (UInt64.size - 1)))

/-- What may stand after a dot. -/
inductive AfterDot : Token → Segment → Prop
  | name (s : String) : AfterDot (.word s) (.field s)
  | place {x : Float} {segment : Segment} (h : Place x segment) : AfterDot (.number x) segment

/-- What may stand in brackets. -/
inductive InBrackets : Token → Segment → Prop
  | place {x : Float} {segment : Segment} (h : Place x segment) : InBrackets (.number x) segment
  | key (s : String) : InBrackets (.text s) (.field s)

/-- The rest of a path after its first name. -/
inductive Trail : List Token → List Segment → Prop
  | nil : Trail [] []
  | dot {t : Token} {segment : Segment} {ts : List Token} {segments : List Segment}
      (here : AfterDot t segment) (more : Trail ts segments) :
      Trail (.dot :: t :: ts) (segment :: segments)
  | brackets {t : Token} {segment : Segment} {ts : List Token} {segments : List Segment}
      (here : InBrackets t segment) (more : Trail ts segments) :
      Trail (.openBracket :: t :: .closeBracket :: ts) (segment :: segments)

/-- The tokens that stand for a value, each with the value. -/
inductive Literal : Token → Json → Prop
  | number (x : Float) : Literal (.number x) (numberLiteral x)
  | text (s : String) : Literal (.text s) (.str s)
  | yes : Literal .yes (.bool true)
  | no : Literal .no (.bool false)
  | null : Literal .null .null

/-- The rules of the grammar, from the loosest binding to the tightest. -/
inductive Level where
  | disjunction
  | conjunction
  | negation
  | comparison
  | operand

/-- A row of tokens is a condition of a level. Terms with `or` or `and` between them are one
condition, however many there are, and a lone term is a condition by itself. -/
inductive Derives : Level → List Token → Expr → Prop
  | anyOf {parts : List (List Token × Expr)} (several : 2 ≤ parts.length)
      (each : ∀ p ∈ parts, Derives .conjunction p.1 p.2) :
      Derives .disjunction ([Token.or].intercalate (parts.map Prod.fst))
        (.anyOf (parts.map Prod.snd))
  | oneTerm {ts : List Token} {e : Expr} (h : Derives .conjunction ts e) : Derives .disjunction ts e
  | allOf {parts : List (List Token × Expr)} (several : 2 ≤ parts.length)
      (each : ∀ p ∈ parts, Derives .negation p.1 p.2) :
      Derives .conjunction ([Token.and].intercalate (parts.map Prod.fst))
        (.allOf (parts.map Prod.snd))
  | oneFactor {ts : List Token} {e : Expr} (h : Derives .negation ts e) : Derives .conjunction ts e
  | not {ts : List Token} {e : Expr} (h : Derives .negation ts e) :
      Derives .negation (.not :: ts) (.not e)
  | plain {ts : List Token} {e : Expr} (h : Derives .comparison ts e) : Derives .negation ts e
  | compare {front back : List Token} {a b : Expr} {op : Comparison}
      (left : Derives .operand front a) (right : Derives .operand back b) :
      Derives .comparison (front ++ .comparison op :: back) (.compare a op b)
  | alone {ts : List Token} {e : Expr} (h : Derives .operand ts e) : Derives .comparison ts e
  | literal {t : Token} {value : Json} (h : Literal t value) : Derives .operand [t] (.literal value)
  | path {name : String} {ts : List Token} {segments : List Segment} (h : Trail ts segments) :
      Derives .operand (.word name :: ts) (.path (.field name :: segments))
  | group {ts : List Token} {e : Expr} (h : Derives .disjunction ts e) :
      Derives .operand (.openParen :: (ts ++ [.closeParen])) e

section

variable {stop : Nat} {tokens used rest : List Lexeme} {ts : List Token} {e : Expr}
  {level upper lower : Level} {sep t : Token} {join : List Expr → Expr}
  {parts : List (List Token × Expr)} {segment : Segment} {value : Json}

/-! ## Single tokens -/

theorem indexOf?_eq_some_iff {x : Float} : indexOf? x = some segment ↔ Place x segment := by
  unfold indexOf?
  constructor
  · intro h
    split at h
    · next n same =>
      split at h
      · next positive =>
        cases h
        refine .whole ?_
        rw [same, Int.toNat_of_nonneg positive]
      · cases h
    · cases h
  · rintro ⟨same⟩
    rw [same]
    exact if_pos (Int.natCast_nonneg _)

theorem dotted?_eq_some_iff : dotted? t = some segment ↔ AfterDot t segment := by
  constructor
  · intro h
    unfold dotted? at h
    split at h
    · cases h
      exact .name _
    · exact .place (indexOf?_eq_some_iff.1 h)
    · cases h
  · rintro (_ | h)
    · rfl
    · exact indexOf?_eq_some_iff.2 h

theorem bracketed?_eq_some_iff : bracketed? t = some segment ↔ InBrackets t segment := by
  constructor
  · intro h
    unfold bracketed? at h
    split at h
    · exact .place (indexOf?_eq_some_iff.1 h)
    · cases h
      exact .key _
    · cases h
  · rintro (h | _)
    · exact indexOf?_eq_some_iff.2 h
    · rfl

theorem literal?_eq_some_iff : literal? t = some value ↔ Literal t value := by
  constructor
  · intro h
    unfold literal? at h
    split at h <;> cases h <;> constructor
  · rintro (_ | _) <;> rfl

/-! ## Terms in a row -/

/-- The terms of an upper level are conditions of the lower level, with a token between them. -/
structure Chain (upper lower : Level) (sep : Token) (join : List Expr → Expr) : Prop where
  one : ∀ {ts e}, Derives lower ts e → Derives upper ts e
  several : ∀ {parts : List (List Token × Expr)}, 2 ≤ parts.length →
    (∀ p ∈ parts, Derives lower p.1 p.2) →
      Derives upper ([sep].intercalate (parts.map Prod.fst)) (join (parts.map Prod.snd))

theorem chain_or : Chain .disjunction .conjunction .or .anyOf := ⟨.oneTerm, .anyOf⟩

theorem chain_and : Chain .conjunction .negation .and .allOf := ⟨.oneFactor, .allOf⟩

/-- The tokens of some terms, each after a token that joins it to those before. -/
def after (sep : Token) (parts : List (List Token × Expr)) : List Token :=
  parts.flatMap fun p => sep :: p.1

theorem intercalate_eq (sep : Token) (first : List Token × Expr)
    (more : List (List Token × Expr)) :
    [sep].intercalate ((first :: more).map Prod.fst) = first.1 ++ after sep more := by
  induction more generalizing first with
  | nil => simp [List.intercalate, after]
  | cons second more ih =>
    have next := ih second
    simp only [List.intercalate, List.map_cons, List.intersperse_cons_cons, List.flatten_cons] at next ⊢
    rw [next]
    simp [after]

theorem derives_joined (chain : Chain upper lower sep join) (first : Derives lower ts e)
    (each : ∀ p ∈ parts, Derives lower p.1 p.2) :
    Derives upper (ts ++ after sep parts) (joined join e (parts.map Prod.snd)) := by
  cases parts with
  | nil =>
    rw [after, List.flatMap_nil, List.append_nil]
    exact chain.one first
  | cons second more =>
    rw [← intercalate_eq sep (ts, e)]
    exact chain.several (by simp) (List.forall_mem_cons.2 ⟨first, each⟩)

/-! ## What is read is derivable -/

/-- What a reader has read of some tokens is a condition of a level. -/
def Reads (level : Level) (tokens : List Lexeme) (parsed : Parsed Expr tokens) : Prop :=
  ∃ used, tokens = used ++ parsed.rest ∧ Derives level (used.map Lexeme.token) parsed.value

/-- What a reader has read of some tokens are conditions of a level, each after a joining token. -/
def ReadsMore (level : Level) (sep : Token) (tokens : List Lexeme)
    (more : Continued (List Expr) tokens) : Prop :=
  ∃ used parts, tokens = used ++ more.rest ∧ used.map Lexeme.token = after sep parts ∧
    more.value = parts.map Prod.snd ∧ ∀ p ∈ parts, Derives level p.1 p.2

theorem Reads.joined {first : Parsed Expr tokens} {more : Continued (List Expr) first.rest}
    {h : more.rest.length < tokens.length} (chain : Chain upper lower sep join)
    (head : Reads lower tokens first) (tail : ReadsMore lower sep first.rest more) :
    Reads upper tokens ⟨joined join first.value more.value, more.rest, h⟩ := by
  obtain ⟨used, split, derives⟩ := head
  obtain ⟨used', parts, split', same, values, each⟩ := tail
  refine ⟨used ++ used', ?_, ?_⟩
  · rw [List.append_assoc, ← split', ← split]
  · rw [List.map_append, same]
    dsimp only
    rw [values]
    exact derives_joined chain derives each

theorem Reads.cons {position : Nat} {more : List Lexeme} {term : Parsed Expr more}
    {tail : Continued (List Expr) term.rest}
    {h : tail.rest.length ≤ (⟨sep, position⟩ :: more).length}
    (head : Reads level more term) (others : ReadsMore level sep term.rest tail) :
    ReadsMore level sep (⟨sep, position⟩ :: more) ⟨term.value :: tail.value, tail.rest, h⟩ := by
  obtain ⟨used, split, derives⟩ := head
  obtain ⟨used', parts, split', same, values, each⟩ := others
  refine ⟨⟨sep, position⟩ :: (used ++ used'), (used.map Lexeme.token, term.value) :: parts,
    ?_, ?_, ?_, ?_⟩
  · rw [List.cons_append, List.append_assoc, ← split', ← split]
  · rw [List.map_cons, List.map_append, same]
    rfl
  · dsimp only
    rw [values]
    rfl
  · exact List.forall_mem_cons.2 ⟨derives, each⟩

theorem trail_of_segments {path : Continued (List Segment) tokens}
    (h : segments stop tokens = .ok path) :
    ∃ used, tokens = used ++ path.rest ∧ Trail (used.map Lexeme.token) path.value := by
  fun_induction segments stop tokens with
  | case1 => cases h
  | case2 => cases h
  | case3 position t more segment found ih =>
    cases next : segments stop more with
    | error problem => rw [next] at h; cases h
    | ok tail =>
      rw [next] at h
      cases h
      obtain ⟨used, split, trail⟩ := ih next
      refine ⟨⟨.dot, position⟩ :: t :: used, ?_, .dot (dotted?_eq_some_iff.1 found) trail⟩
      rw [List.cons_append, List.cons_append]
      exact congrArg _ (congrArg _ split)
  | case4 => cases h
  | case5 => cases h
  | case6 position t segment found place more ih =>
    cases next : segments stop more with
    | error problem => rw [next] at h; cases h
    | ok tail =>
      rw [next] at h
      cases h
      obtain ⟨used, split, trail⟩ := ih next
      refine ⟨⟨.openBracket, position⟩ :: t :: ⟨.closeBracket, place⟩ :: used, ?_,
        .brackets (bracketed?_eq_some_iff.1 found) trail⟩
      rw [List.cons_append, List.cons_append, List.cons_append]
      exact congrArg _ (congrArg _ (congrArg _ split))
  | case7 => cases h
  | case8 lexemes =>
    cases h
    exact ⟨[], rfl, .nil⟩

mutual

theorem reads_disjunction {tokens : List Lexeme} {parsed : Parsed Expr tokens}
    (h : disjunction stop tokens = .ok parsed) : Reads .disjunction tokens parsed := by
  rw [disjunction] at h
  split at h
  · cases h
  · next first read =>
    dsimp only at h
    split at h
    · cases h
    · next more others =>
      cases h
      have := first.shorter
      exact (reads_conjunction read).joined chain_or (reads_disjuncts others)
termination_by (tokens.length, 4)

theorem reads_disjuncts {tokens : List Lexeme} {more : Continued (List Expr) tokens}
    (h : disjuncts stop tokens = .ok more) : ReadsMore .conjunction .or tokens more := by
  rw [disjuncts.eq_def] at h
  split at h
  · split at h
    · cases h
    · next term read =>
      dsimp only at h
      split at h
      · cases h
      · next tail others =>
        cases h
        have := term.shorter
        exact (reads_conjunction read).cons (reads_disjuncts others)
  · cases h
    exact ⟨[], [], rfl, rfl, rfl, nofun⟩
termination_by (tokens.length, 0)
decreasing_by
  all_goals
    subst_vars
    apply Prod.Lex.left
    simp only [List.length_cons]
    omega

theorem reads_conjunction {tokens : List Lexeme} {parsed : Parsed Expr tokens}
    (h : conjunction stop tokens = .ok parsed) : Reads .conjunction tokens parsed := by
  rw [conjunction] at h
  split at h
  · cases h
  · next first read =>
    dsimp only at h
    split at h
    · cases h
    · next more others =>
      cases h
      have := first.shorter
      exact (reads_negation read).joined chain_and (reads_conjuncts others)
termination_by (tokens.length, 3)

theorem reads_conjuncts {tokens : List Lexeme} {more : Continued (List Expr) tokens}
    (h : conjuncts stop tokens = .ok more) : ReadsMore .negation .and tokens more := by
  rw [conjuncts.eq_def] at h
  split at h
  · split at h
    · cases h
    · next term read =>
      dsimp only at h
      split at h
      · cases h
      · next tail others =>
        cases h
        have := term.shorter
        exact (reads_negation read).cons (reads_conjuncts others)
  · cases h
    exact ⟨[], [], rfl, rfl, rfl, nofun⟩
termination_by (tokens.length, 0)
decreasing_by
  all_goals
    subst_vars
    apply Prod.Lex.left
    simp only [List.length_cons]
    omega

theorem reads_negation {tokens : List Lexeme} {parsed : Parsed Expr tokens}
    (h : negation stop tokens = .ok parsed) : Reads .negation tokens parsed := by
  rw [negation.eq_def] at h
  split at h
  · next position more =>
    split at h
    · cases h
    · next term read =>
      cases h
      obtain ⟨used, split, derives⟩ := reads_negation read
      exact ⟨⟨.not, position⟩ :: used, congrArg _ split, .not derives⟩
  · obtain ⟨used, split, derives⟩ := reads_comparison h
    exact ⟨used, split, .plain derives⟩
termination_by (tokens.length, 2)
decreasing_by
  · subst_vars
    exact .left _ _ (Nat.lt_succ_self _)
  · exact .right _ (by decide)

theorem reads_comparison {tokens : List Lexeme} {parsed : Parsed Expr tokens}
    (h : comparison stop tokens = .ok parsed) : Reads .comparison tokens parsed := by
  rw [comparison.eq_def] at h
  split at h
  · cases h
  · next left read =>
    obtain ⟨used, cut, derives⟩ := reads_operand read
    dsimp only at h
    split at h
    · next op position more found =>
      split at h
      · cases h
      · next right read' =>
        cases h
        have fewer : more.length < tokens.length := by
          have whole := left.shorter
          rw [found] at whole
          exact Nat.lt_of_succ_lt whole
        obtain ⟨used', cut', derives'⟩ := reads_operand read'
        refine ⟨used ++ ⟨.comparison op, position⟩ :: used', ?_, ?_⟩
        · rw [List.append_assoc, List.cons_append, ← cut', ← found, ← cut]
        · rw [List.map_append, List.map_cons]
          exact .compare derives derives'
    · cases h
      exact ⟨used, cut, .alone derives⟩
termination_by (tokens.length, 1)
decreasing_by
  · exact .right _ (by decide)
  · exact .left _ _ fewer

theorem reads_operand {tokens : List Lexeme} {parsed : Parsed Expr tokens}
    (h : operand stop tokens = .ok parsed) : Reads .operand tokens parsed := by
  rw [operand.eq_def] at h
  split at h
  · cases h
  · next position more =>
    split at h
    · cases h
    · next inner read =>
      obtain ⟨used, cut, derives⟩ := reads_disjunction read
      split at h
      · next place rest found =>
        cases h
        refine ⟨⟨.openParen, position⟩ :: (used ++ [⟨.closeParen, place⟩]), ?_, ?_⟩
        · rw [List.cons_append, List.append_assoc, List.singleton_append, ← found, ← cut]
        · rw [List.map_cons, List.map_append]
          exact .group derives
      · cases h
  · next name position more =>
    split at h
    · cases h
    · next path read =>
      cases h
      obtain ⟨used, cut, trail⟩ := trail_of_segments read
      exact ⟨⟨.word name, position⟩ :: used, congrArg _ cut, .path trail⟩
  · next token position more _ _ =>
    split at h
    · next value found =>
      cases h
      exact ⟨[⟨token, position⟩], rfl, .literal (literal?_eq_some_iff.1 found)⟩
    · cases h
termination_by (tokens.length, 0)
decreasing_by
  subst_vars
  exact .left _ _ (Nat.lt_succ_self _)

end

end

end Stepwise.Condition

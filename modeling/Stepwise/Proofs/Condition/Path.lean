import Stepwise.Condition.Parser

/-!
# Conditions that are one path

What the reader of conditions does with a text that turns out to be a path and nothing else: its
tokens are a name, and then dots and brackets with a segment each. Both relations leave out the
places of the tokens, which decide nothing here.
-/

namespace Stepwise.Condition

open Text

/-! ## Tokens -/

/-- The tokens of a text. -/
inductive Lexes : List Char → List Token → Prop
  | nil : Lexes [] []
  | blank {c : Char} {cs : List Char} {ts : List Token} :
      isBlank c = true → Lexes cs ts → Lexes (c :: cs) ts
  | token {c : Char} {cs after : List Char} {t : Token} {ts : List Token} :
      isBlank c = false → readToken c cs = .ok (t, after) → Lexes after ts → Lexes (c :: cs) (t :: ts)

theorem lexes_of_lex {cs : List Char} {pos : Nat} {lexemes : List Lexeme}
    (h : lex cs pos = .ok lexemes) : Lexes cs (lexemes.map Lexeme.token) := by
  fun_induction lex cs pos generalizing lexemes with
  | case1 =>
    cases h
    exact .nil
  | case2 pos c rest blank ih => exact .blank blank (ih h)
  | case3 pos c rest blank complaint failed => cases h
  | case4 pos c rest blank t after read _ problem failed ih => cases h
  | case5 pos c rest blank t after read _ more rests ih =>
    cases h
    exact .token (by simpa using blank) read (ih rests)

theorem lex_nil (pos : Nat) : lex [] pos = .ok [] := by rw [lex]

/-- One token more in front of a text that is read. -/
theorem lex_cons {c : Char} {rest after : List Char} {t : Token} {pos : Nat}
    {more : List Lexeme} (visible : isBlank c = false) (read : readToken c rest = .ok (t, after))
    (next : lex after (pos + (rest.length + 1 - after.length)) = .ok more) :
    lex (c :: rest) pos = .ok (⟨t, pos⟩ :: more) := by
  rw [lex, if_neg (by simp [visible])]
  split
  · next no =>
    rw [read] at no
    cases no
  · next same =>
    rw [read] at same
    cases same
    rw [next]

/-- A row of tokens is read, wherever the text stands. -/
theorem lex_of_lexes {cs : List Char} {ts : List Token} (h : Lexes cs ts) (pos : Nat) :
    ∃ lexemes, lex cs pos = .ok lexemes ∧ lexemes.map Lexeme.token = ts := by
  induction h generalizing pos with
  | nil => exact ⟨[], lex_nil pos, rfl⟩
  | blank blank _ ih =>
    rw [lex, if_pos blank]
    exact ih _
  | token visible read _ ih =>
    obtain ⟨more, next, rfl⟩ := ih _
    exact ⟨_, lex_cons visible read next, rfl⟩

theorem Lexes.of_blank {c : Char} {cs : List Char} {ts : List Token} (blank : isBlank c = true)
    (h : Lexes (c :: cs) ts) : Lexes cs ts := by
  cases h with
  | blank _ more => exact more
  | token visible _ _ => rw [blank] at visible; cases visible

theorem Lexes.of_token {c : Char} {cs : List Char} {ts : List Token} (visible : isBlank c = false)
    (h : Lexes (c :: cs) ts) :
    ∃ t after more, readToken c cs = .ok (t, after) ∧ Lexes after more ∧ ts = t :: more := by
  cases h with
  | blank blank _ => rw [blank] at visible; cases visible
  | token _ read more => exact ⟨_, _, _, read, more, rfl⟩

theorem Lexes.of_blanks {gap cs : List Char} {ts : List Token}
    (blank : ∀ c ∈ gap, isBlank c = true) (h : Lexes (gap ++ cs) ts) : Lexes cs ts := by
  induction gap with
  | nil => exact h
  | cons c gap ih =>
    exact ih (fun d hd => blank d (List.mem_cons_of_mem c hd))
      (h.of_blank (blank c List.mem_cons_self))

theorem isBlank_of_isNameChar {c : Char} (h : isNameChar c = true) : isBlank c = false := by
  have range : ∀ {low high : Char}, low ≤ c ∧ c ≤ high →
      low.toNat ≤ c.toNat ∧ c.toNat ≤ high.toNat := fun between => between
  simp only [isNameChar, isLetter, isDigit, Bool.or_eq_true, Bool.and_eq_true, decide_eq_true_eq,
    beq_iff_eq] at h
  simp only [isBlank, Bool.or_eq_false_iff, Bool.and_eq_false_iff, decide_eq_false_iff_not,
    beq_eq_false_iff_ne]
  rcases h with (((h | h) | h) | rfl) | rfl
  · have := range h
    simp only [show 'a'.toNat = 97 from rfl, show 'z'.toNat = 122 from rfl] at this
    omega
  · have := range h
    simp only [show 'A'.toNat = 65 from rfl, show 'Z'.toNat = 90 from rfl] at this
    omega
  · have := range h
    simp only [show '0'.toNat = 48 from rfl, show '9'.toNat = 57 from rfl] at this
    omega
  · decide
  · decide

theorem readMark?_of_isNameChar {c : Char} {cs : List Char} (h : isNameChar c = true) :
    readMark? (c :: cs) = none := by
  unfold readMark?
  split <;> first | rfl | (simp_all [isNameChar, isLetter, isDigit])

/-- A word is no mark. -/
theorem ofWord_ne_mark (s : String) :
    Token.ofWord s ≠ .dot ∧ Token.ofWord s ≠ .openBracket ∧ Token.ofWord s ≠ .closeBracket ∧
      Token.ofWord s ≠ .openParen := by
  unfold Token.ofWord
  repeat' split
  all_goals simp

/-- The marks of a path are single characters. -/
theorem mark_of_readToken {c : Char} {cs after : List Char} {t : Token}
    (h : readToken c cs = .ok (t, after)) :
    (t = .dot → c = '.') ∧ (t = .openBracket → c = '[') ∧ (t = .closeBracket → c = ']') := by
  unfold readToken at h
  split at h
  · next found mark =>
    cases h
    unfold readMark? at mark
    split at mark <;> cases mark <;> simp_all
  split at h
  · split at h <;> cases h
    simp
  split at h
  · cases h
    simp
  split at h
  · cases h
    simp
  split at h <;> cases h
  obtain ⟨noDot, noOpen, noClose, -⟩ := ofWord_ne_mark (String.ofList (c :: cs.takeWhile isNameChar))
  exact ⟨fun e => absurd e noDot, fun e => absurd e noOpen, fun e => absurd e noClose⟩

/-- The token at a character of names: a word, a number, or a number below zero. -/
inductive Begins (c : Char) (cs : List Char) : Token → List Char → Prop
  | word : isDigit c = false → c ≠ '-' →
      Begins c cs (.ofWord (String.ofList (c :: cs.takeWhile isNameChar))) (cs.dropWhile isNameChar)
  | number {whole part after : List Char} : isDigit c = true →
      readDigits (c :: cs) = (whole, part, after) →
        Begins c cs (.number (numberValue false whole part)) after
  | negative {whole part after : List Char} : c = '-' →
      readDigits cs = (whole, part, after) →
        Begins c cs (.number (numberValue true whole part)) after

theorem begins_of_readToken {c : Char} {cs after : List Char} {t : Token}
    (char : isNameChar c = true) (h : readToken c cs = .ok (t, after)) : Begins c cs t after := by
  unfold readToken at h
  rw [readMark?_of_isNameChar char] at h
  dsimp only at h
  split at h
  · next quote =>
    rcases quote with rfl | rfl <;> cases char
  split at h
  · next negative =>
    cases h
    exact .negative negative.1 rfl
  split at h
  · next digit =>
    cases h
    exact .number digit rfl
  split at h
  · next noNegative noDigit letter =>
    cases h
    refine .word (by simpa using noDigit) ?_
    rintro rfl
    revert letter
    decide
  · cases h

/-! ## Segments -/

/-- The segments that the tokens after the first name of a path mean. -/
inductive Follow : List Token → List Segment → Prop
  | nil : Follow [] []
  | dotted {t : Token} {s : Segment} {ts : List Token} {ss : List Segment} :
      dotted? t = some s → Follow ts ss → Follow (.dot :: t :: ts) (s :: ss)
  | bracketed {t : Token} {s : Segment} {ts : List Token} {ss : List Segment} :
      bracketed? t = some s → Follow ts ss →
        Follow (.openBracket :: t :: .closeBracket :: ts) (s :: ss)

theorem follow_of_segments {stop : Nat} {lexemes : List Lexeme}
    {path : Continued (List Segment) lexemes} (h : segments stop lexemes = .ok path)
    (all : path.rest = []) : Follow (lexemes.map Lexeme.token) path.value := by
  fun_induction segments stop lexemes with
  | case1 => cases h
  | case2 => cases h
  | case3 position t more segment found ih =>
    cases next : segments stop more with
    | error problem => rw [next] at h; cases h
    | ok tail =>
      rw [next] at h
      cases h
      exact .dotted found (ih next all)
  | case4 => cases h
  | case5 => cases h
  | case6 position t segment found place more ih =>
    cases next : segments stop more with
    | error problem => rw [next] at h; cases h
    | ok tail =>
      rw [next] at h
      cases h
      exact .bracketed found (ih next all)
  | case7 => cases h
  | case8 lexemes =>
    cases h
    have none : lexemes = [] := all
    subst none
    exact .nil

/-- The segments that follow a name are read, with nothing left. -/
theorem segments_of_follow {stop : Nat} {lexemes : List Lexeme} {path : List Segment}
    (h : Follow (lexemes.map Lexeme.token) path) :
    ∃ read, segments stop lexemes = .ok read ∧ read.value = path ∧ read.rest = [] := by
  generalize tokens : lexemes.map Lexeme.token = ts at h
  induction h generalizing lexemes with
  | nil =>
    rw [List.map_eq_nil_iff.1 tokens, segments] <;> simp
  | dotted found _ ih =>
    obtain ⟨⟨_, _⟩, _, rfl, rfl, tail⟩ := List.map_eq_cons_iff.1 tokens
    obtain ⟨⟨_, _⟩, more, rfl, rfl, rfl⟩ := List.map_eq_cons_iff.1 tail
    obtain ⟨read, same, rfl, all⟩ := @ih more rfl
    rw [segments, found, same]
    exact ⟨_, rfl, rfl, all⟩
  | bracketed found _ ih =>
    obtain ⟨⟨_, _⟩, _, rfl, rfl, tail⟩ := List.map_eq_cons_iff.1 tokens
    obtain ⟨⟨_, _⟩, _, rfl, rfl, closing⟩ := List.map_eq_cons_iff.1 tail
    obtain ⟨⟨_, _⟩, more, rfl, rfl, rfl⟩ := List.map_eq_cons_iff.1 closing
    obtain ⟨read, same, rfl, all⟩ := @ih more rfl
    rw [segments, found]
    dsimp only
    rw [same]
    exact ⟨_, rfl, rfl, all⟩

/-! ## The reader of conditions

Each level of the grammar hands a lone path on to the next one and adds nothing to it. -/

theorem joined_eq_path {join : List Expr → Expr} {first : Expr} {more : List Expr}
    {path : List Segment} (different : ∀ terms, join terms ≠ .path path)
    (h : joined join first more = .path path) : more = [] ∧ first = .path path := by
  cases more with
  | nil => exact ⟨rfl, h⟩
  | cons term more => exact absurd h (different (first :: term :: more))

theorem disjuncts_none {stop : Nat} {lexemes : List Lexeme}
    {more : Continued (List Expr) lexemes} (h : disjuncts stop lexemes = .ok more)
    (none : more.value = []) : more.rest = lexemes := by
  rw [disjuncts.eq_def] at h
  split at h
  · split at h
    · cases h
    · dsimp only at h
      split at h
      · cases h
      · cases h
        cases none
  · cases h
    rfl

theorem conjuncts_none {stop : Nat} {lexemes : List Lexeme}
    {more : Continued (List Expr) lexemes} (h : conjuncts stop lexemes = .ok more)
    (none : more.value = []) : more.rest = lexemes := by
  rw [conjuncts.eq_def] at h
  split at h
  · split at h
    · cases h
    · dsimp only at h
      split at h
      · cases h
      · cases h
        cases none
  · cases h
    rfl

/-- A lone path that an operand is, outside parentheses. -/
theorem path_of_operand {stop : Nat} {lexemes : List Lexeme} {parsed : Parsed Expr lexemes}
    {path : List Segment} (outside : next? lexemes ≠ some .openParen)
    (h : operand stop lexemes = .ok parsed) (value : parsed.value = .path path)
    (all : parsed.rest = []) :
    ∃ name more segments, lexemes.map Lexeme.token = .word name :: more ∧
      path = .field name :: segments ∧ Follow more segments := by
  rw [operand.eq_def] at h
  split at h
  · cases h
  · exact absurd rfl outside
  · next name position after =>
    split at h
    · cases h
    · next tail read =>
      cases h
      cases value
      exact ⟨name, after.map Lexeme.token, tail.value, rfl, rfl, follow_of_segments read all⟩
  · split at h
    · cases h
      cases value
    · cases h

theorem operand_of_comparison {stop : Nat} {lexemes : List Lexeme} {parsed : Parsed Expr lexemes}
    {path : List Segment} (h : comparison stop lexemes = .ok parsed)
    (value : parsed.value = .path path) : operand stop lexemes = .ok parsed := by
  rw [comparison.eq_def] at h
  split at h
  · cases h
  · next left read =>
    dsimp only at h
    split at h
    · split at h
      · cases h
      · cases h
        cases value
    · cases h
      exact read

theorem comparison_of_negation {stop : Nat} {lexemes : List Lexeme} {parsed : Parsed Expr lexemes}
    {path : List Segment} (h : negation stop lexemes = .ok parsed)
    (value : parsed.value = .path path) : comparison stop lexemes = .ok parsed := by
  rw [negation.eq_def] at h
  split at h
  · split at h
    · cases h
    · cases h
      cases value
  · exact h

theorem negation_of_conjunction {stop : Nat} {lexemes : List Lexeme} {parsed : Parsed Expr lexemes}
    {path : List Segment} (h : conjunction stop lexemes = .ok parsed)
    (value : parsed.value = .path path) :
    ∃ first, negation stop lexemes = .ok first ∧ first.value = .path path ∧
      first.rest = parsed.rest := by
  rw [conjunction.eq_def] at h
  split at h
  · cases h
  · next first read =>
    dsimp only at h
    split at h
    · cases h
    · next more others =>
      cases h
      obtain ⟨none, same⟩ := joined_eq_path (fun _ => Expr.noConfusion) value
      exact ⟨first, read, same, (conjuncts_none others none).symm⟩

theorem conjunction_of_disjunction {stop : Nat} {lexemes : List Lexeme}
    {parsed : Parsed Expr lexemes} {path : List Segment}
    (h : disjunction stop lexemes = .ok parsed) (value : parsed.value = .path path) :
    ∃ first, conjunction stop lexemes = .ok first ∧ first.value = .path path ∧
      first.rest = parsed.rest := by
  rw [disjunction.eq_def] at h
  split at h
  · cases h
  · next first read =>
    dsimp only at h
    split at h
    · cases h
    · next more others =>
      cases h
      obtain ⟨none, same⟩ := joined_eq_path (fun _ => Expr.noConfusion) value
      exact ⟨first, read, same, (disjuncts_none others none).symm⟩

/-- A text that the reader of conditions takes for one path, and that does not start with a
parenthesis, is a name and the segments that follow it. -/
theorem path_of_compile {text : String} {path : List Segment}
    (h : compile text = .ok (.path path)) :
    ∃ tokens, Lexes text.toList tokens ∧ (tokens.head? ≠ some .openParen →
      ∃ name more segments, tokens = .word name :: more ∧
        path = .field name :: segments ∧ Follow more segments) := by
  unfold compile at h
  split at h
  · next e read =>
    cases h
    cases tokens : lex text.toList 0 with
    | error problem => rw [tokens] at read; cases read
    | ok lexemes =>
      rw [tokens] at read
      refine ⟨lexemes.map Lexeme.token, lexes_of_lex tokens, fun outside => ?_⟩
      change readTokens text.length lexemes = _ at read
      unfold readTokens at read
      split at read
      · cases read
      · split at read
        · cases read
        · next parsed whole =>
          split at read
          · next all =>
            obtain ⟨first, conjunct, value, rest⟩ :=
              conjunction_of_disjunction whole (Except.ok.inj read)
            obtain ⟨only, negated, value, rest'⟩ := negation_of_conjunction conjunct value
            refine path_of_operand ?_
              (operand_of_comparison (comparison_of_negation negated value) value) value ?_
            · simpa [next?, List.head?_map] using outside
            · rw [rest', rest]
              exact List.isEmpty_iff.1 all
          · cases read
  · cases h

/-- A name and segments up to the end are a path. -/
theorem compile_of_segments {text name : String} {position : Nat} {lexemes : List Lexeme}
    {path : Continued (List Segment) lexemes}
    (tokens : lex text.toList 0 = .ok (⟨.word name, position⟩ :: lexemes))
    (read : segments text.length lexemes = .ok path) (all : path.rest = []) :
    compile text = .ok (.path (.field name :: path.value)) := by
  simp only [compile, tokens, Except.bind]
  simp [readTokens, disjunction, disjuncts, conjunction, conjuncts, negation, comparison, operand,
    joined, read, all]

/-- A text whose tokens are a name and segments is a path. -/
theorem compile_of_lexes {text name : String} {ts : List Token} {path : List Segment}
    (tokens : Lexes text.toList (.word name :: ts)) (follow : Follow ts path) :
    compile text = .ok (.path (.field name :: path)) := by
  obtain ⟨lexemes, read, same⟩ := lex_of_lexes tokens 0
  obtain ⟨⟨_, _⟩, more, rfl, rfl, rfl⟩ := List.map_eq_cons_iff.1 same
  obtain ⟨tail, segmented, rfl, all⟩ := segments_of_follow follow
  exact compile_of_segments read segmented all

end Stepwise.Condition

import Stepwise.Proofs.Condition.Path
import Stepwise.Proofs.Path.Plain

/-!
# The tokens of a path

What the reader of conditions makes of each part of a text that the reader of references accepts.
A number may take the next name with it, and a quoted key may go on past its bracket; all other
parts end where they should.
-/

namespace Stepwise.Path

open Text Condition

/-! ## The parts of a text that was accepted -/

theorem isNameChar_point : isNameChar '.' = false := by decide

theorem isNameChar_bracket : isNameChar '[' = false := by decide

theorem Spells.stop {rest post : List Char} {path : List Segment} (h : Spells rest path)
    (gap : ∀ c ∈ post, isBlank c = true) :
    ∀ c ∈ (rest ++ post).head?, isNameChar c = false := by
  intro c hc
  cases rest with
  | nil =>
    cases name : isNameChar c with
    | false => rfl
    | true =>
      have := gap c (List.mem_of_head? hc)
      rw [isBlank_of_isNameChar name] at this
      cases this
  | cons d rest =>
    obtain rfl : d = c := Option.some.inj hc
    exact h.stops d rfl

theorem isNameChar_of_isDigit {c : Char} (h : isDigit c = true) : isNameChar c = true := by
  simp only [isNameChar, h, Bool.or_true, Bool.true_or]

theorem parts_name {c : Char} {name rest : List Char} {path : List Segment}
    (all : ∀ d ∈ c :: name, isNameChar d = true) (h : Spells rest path) :
    parts (c :: (name ++ rest)) = .name (c :: name) :: parts rest := by
  have char := all c List.mem_cons_self
  have noBracket : c ≠ '[' := by
    rintro rfl
    cases char
  have stop : ∀ d ∈ (rest ++ []).head?, isNameChar d = false := h.stop (by simp)
  rw [List.append_nil] at stop
  obtain ⟨run, after⟩ := span_append (fun d hd => all d (List.mem_cons_of_mem c hd)) stop
  rw [parts, if_neg noBracket, if_pos char, run, after]

theorem parts_point (rest : List Char) : parts ('.' :: rest) = parts rest := by
  rw [parts]
  simp [isNameChar_point]

theorem parts_bracket {inner rest : List Char} (h : ']' ∉ inner) :
    parts ('[' :: (inner ++ ']' :: rest)) = .bracket inner :: parts rest := by
  have others : ∀ c ∈ inner, decide (c ≠ ']') = true :=
    fun c hc => decide_eq_true fun same => h (same ▸ hc)
  have stop : ∀ c ∈ (']' :: rest).head?, decide (c ≠ ']') = false := by simp
  obtain ⟨run, after⟩ := span_append others stop
  rw [parts, if_pos rfl, run, after, List.tail_cons]

/-! ## Numbers among the tokens -/

/-- No name goes on where the next segment of a path, or the end, is read. -/
theorem stop_of_follow {cs : List Char} {ts : List Token} {path : List Segment}
    (tokens : Lexes cs ts) (follow : Follow ts path) :
    ∀ c ∈ cs.head?, isNameChar c = false := by
  intro c hc
  cases cs with
  | nil => cases hc
  | cons d cs =>
    obtain rfl := Option.some.inj hc
    cases char : isNameChar d with
    | false => rfl
    | true =>
      obtain ⟨t, after, more, read, -, rfl⟩ := tokens.of_token (isBlank_of_isNameChar char)
      obtain ⟨point, bracket, -⟩ := mark_of_readToken read
      cases follow with
      | dotted => rw [point rfl, isNameChar_point] at char; cases char
      | bracketed => rw [bracket rfl, isNameChar_bracket] at char; cases char

/-- A number ends where its digits end, unless a point follows and then another digit. -/
theorem readDigits_append {run rest : List Char} (all : ∀ c ∈ run, isDigit c = true)
    (stop : ∀ c ∈ rest.head?, isDigit c = false)
    (noPart : ∀ d more, rest = '.' :: d :: more → isDigit d = false) :
    readDigits (run ++ rest) = (run, [], rest) := by
  obtain ⟨whole, after⟩ := span_append all stop
  unfold readDigits
  dsimp only
  rw [whole, after]
  split
  · next d more =>
    rw [if_neg (by rw [noPart d more rfl]; exact Bool.false_ne_true)]
  · rfl

/-- With a point and a digit after it, the next row of digits belongs to the number. -/
theorem readDigits_point {run more : List Char} {d : Char} (all : ∀ c ∈ run, isDigit c = true)
    (digit : isDigit d = true) :
    readDigits (run ++ '.' :: d :: more)
      = (run, (d :: more).takeWhile isDigit, (d :: more).dropWhile isDigit) := by
  have stop : ∀ c ∈ ('.' :: d :: more).head?, isDigit c = false := by
    intro c hc
    obtain rfl := Option.some.inj hc
    decide
  obtain ⟨whole, after⟩ := span_append all stop
  simp only [readDigits, whole, after, digit, if_true]

theorem isDigit_eq_false {c : Char} (h : isNameChar c = false) : isDigit c = false := by
  cases digit : isDigit c with
  | false => rfl
  | true => rw [isNameChar_of_isDigit digit] at h; cases h

/-- A name that does not go on after the digits at its front has no other characters. -/
theorem digits_of_stop {name : List Char} (rest : List Char)
    (all : ∀ c ∈ name, isNameChar c = true)
    (stop : ∀ c ∈ ((name ++ rest).dropWhile isDigit).head?, isNameChar c = false) :
    ∀ c ∈ name, isDigit c = true := by
  induction name with
  | nil => simp
  | cons c name ih =>
    cases digit : isDigit c with
    | false =>
      simp only [List.cons_append, List.dropWhile_cons, digit, Bool.false_eq_true, if_false] at stop
      have := stop c rfl
      rw [all c List.mem_cons_self] at this
      cases this
    | true =>
      simp only [List.cons_append, List.dropWhile_cons, digit, if_true] at stop
      intro d hd
      rcases List.mem_cons.1 hd with rfl | hd
      · exact digit
      · exact ih (fun e he => all e (List.mem_cons_of_mem c he)) stop d hd

/-- What is left after a number. -/
theorem after_readDigits (cs : List Char) :
    (readDigits cs).2.2 = cs.dropWhile isDigit ∨ ∃ more, cs.dropWhile isDigit = '.' :: more := by
  unfold readDigits
  dsimp only
  split
  · next d more split => exact .inr ⟨d :: more, split⟩
  · exact .inl rfl

/-- What a number in place of a name takes: the name, or the name and the one after it. -/
inductive Takes (name rest post : List Char) (path : List Segment) :
    List Char → List Char → Prop
  | one : (∀ p ∈ (parts rest).head?, ¬ p.IsPlace) → Takes name rest post path [] (rest ++ post)
  | two {c : Char} {next after part : List Char} {more : List Segment} :
      rest = '.' :: c :: (next ++ after) → path = nameSegment false (c :: next) :: more →
        (∀ d ∈ c :: next, isDigit d = true) → Spells after more →
          Takes name rest post path part (after ++ post)

theorem takes_of_readDigits {name rest post whole part after : List Char}
    {path path' : List Segment}
    {ts : List Token} (all : ∀ c ∈ name, isNameChar c = true) (spelled : Spells rest path)
    (gap : ∀ c ∈ post, isBlank c = true)
    (read : readDigits (name ++ (rest ++ post)) = (whole, part, after))
    (tokens : Lexes after ts) (follow : Follow ts path') :
    (∀ c ∈ name, isDigit c = true) ∧ whole = name ∧ Takes name rest post path part after := by
  have stop : ∀ c ∈ (rest ++ post).head?, isDigit c = false :=
    fun c hc => isDigit_eq_false (spelled.stop gap c hc)
  have digits : ∀ c ∈ name, isDigit c = true := by
    refine digits_of_stop (rest ++ post) all ?_
    rcases after_readDigits (name ++ (rest ++ post)) with left | ⟨more, left⟩
    · rw [read] at left
      rw [← left]
      exact stop_of_follow tokens follow
    · rw [left]
      intro c hc
      obtain rfl := Option.some.inj hc
      exact isNameChar_point
  refine ⟨digits, ?_⟩
  -- all forms but a name of digits after a point end the number
  have one (noPart : ∀ d more, rest ++ post = '.' :: d :: more → isDigit d = false)
      (noPlace : ∀ p ∈ (parts rest).head?, ¬ p.IsPlace) :
      whole = name ∧ Takes name rest post path part after := by
    rw [readDigits_append digits stop noPart] at read
    cases read
    exact ⟨rfl, .one noPlace⟩
  cases spelled with
  | nil =>
    refine one (fun d more same => ?_) (by simp [parts])
    have := gap '.' (by rw [show post = '.' :: d :: more from same]; exact List.mem_cons_self)
    exact absurd this (by decide)
  | @name c next after' more chars spelled =>
    cases digit : isDigit c with
    | false =>
      refine one (fun d more same => ?_) ?_
      · obtain rfl : c = d := (List.cons.inj (List.cons.inj same).2).1
        exact digit
      · rw [parts_point, parts_name chars spelled]
        intro p hp place
        obtain rfl := Option.some.inj hp
        rw [place c List.mem_cons_self] at digit
        cases digit
    | true =>
      rw [List.cons_append, List.cons_append, readDigits_point digits digit] at read
      cases read
      have digits' : ∀ d ∈ c :: next, isDigit d = true := by
        refine digits_of_stop (after' ++ post) chars ?_
        simpa [List.append_assoc] using stop_of_follow tokens follow
      have left : (c :: (next ++ after' ++ post)).dropWhile isDigit = after' ++ post := by
        rw [List.append_assoc]
        exact (span_append digits' fun d hd => isDigit_eq_false (spelled.stop gap d hd)).2
      rw [left]
      exact ⟨rfl, .two rfl rfl digits' spelled⟩
  | bracket noBracket found spelled =>
    refine one (fun d more same => by simp at same) ?_
    rw [parts_bracket noBracket]
    simp [Part.IsPlace]
  | pointBracket noBracket found spelled =>
    refine one (fun d more same => ?_) ?_
    · obtain rfl : '[' = d := (List.cons.inj (List.cons.inj same).2).1
      decide
    · rw [parts_point, parts_bracket noBracket]
      simp [Part.IsPlace]

/-! ## Quoted keys among the tokens -/

theorem readQuoted_escape {q c : Char} {cs : List Char} :
    readQuoted q ('\\' :: c :: cs)
      = (readQuoted q cs).map (fun (text, rest) => (c :: text, rest)) := by
  rw [readQuoted]

theorem readQuoted_cons {q c : Char} {cs : List Char} (plain : c ≠ '\\') :
    readQuoted q (c :: cs) = if c = q then some ([], cs)
      else (readQuoted q cs).map (fun (text, rest) => (c :: text, rest)) := by
  rw [readQuoted]
  rintro d rest rfl
  contradiction

/-- How a quoted text ends that starts where a key stands: at the quote after the key, with or
without escapes before it; at a quote in the key; or past the key, whose last quote an escape
takes. -/
inductive Closes (q : Char) (key tail text after : List Char) : Prop
  | plain : '\\' ∉ key → text = key → after = tail → Closes q key tail text after
  | escaped : '\\' ∈ key → text.length < key.length → after = tail → Closes q key tail text after
  | early {left : List Char} : (∀ c ∈ left, c ∈ key) → after = left ++ q :: tail →
      Closes q key tail text after
  | late {more : List Char} : '\\' ∈ key → readQuoted q tail = some (more, after) →
      (∀ c ∈ more, c ∈ text) → Closes q key tail text after

theorem Closes.cons {q c : Char} {key tail text after : List Char}
    (h : Closes q key tail text after) (plain : c ≠ '\\') :
    Closes q (c :: key) tail (c :: text) after := by
  cases h with
  | plain none same rest =>
    refine .plain ?_ (by rw [same]) rest
    intro member
    rcases List.mem_cons.1 member with rfl | member
    · exact plain rfl
    · exact none member
  | escaped some shorter rest =>
    exact .escaped (List.mem_cons_of_mem c some) (Nat.succ_lt_succ shorter) rest
  | early inside rest => exact .early (fun d hd => List.mem_cons_of_mem c (inside d hd)) rest
  | late some more inside =>
    exact .late (List.mem_cons_of_mem c some) more fun d hd => List.mem_cons_of_mem c (inside d hd)

theorem Closes.escape {q c : Char} {key tail text after : List Char}
    (h : Closes q key tail text after) :
    Closes q ('\\' :: c :: key) tail (c :: text) after := by
  cases h with
  | plain none same rest =>
    exact .escaped List.mem_cons_self (by rw [same]; simp) rest
  | escaped some shorter rest =>
    exact .escaped List.mem_cons_self (by simp only [List.length_cons]; omega) rest
  | early inside rest =>
    exact .early (fun d hd => List.mem_cons_of_mem _ (List.mem_cons_of_mem c (inside d hd))) rest
  | late some more inside =>
    exact .late List.mem_cons_self more fun d hd => List.mem_cons_of_mem c (inside d hd)

theorem closes_of_readQuoted {q : Char} (quote : q ≠ '\\') {key tail text after : List Char}
    (h : readQuoted q (key ++ q :: tail) = some (text, after)) : Closes q key tail text after := by
  match key with
  | [] =>
    rw [List.nil_append, readQuoted_cons quote, if_pos rfl] at h
    cases h
    exact .plain (by simp) rfl rfl
  | c :: key =>
    by_cases slash : c = '\\'
    · subst slash
      cases key with
      | nil =>
        rw [List.singleton_append, readQuoted_escape] at h
        obtain ⟨⟨more, rest⟩, read, same⟩ := Option.map_eq_some_iff.1 h
        cases same
        exact .late List.mem_cons_self read fun c hc => List.mem_cons_of_mem q hc
      | cons d key =>
        rw [List.cons_append, List.cons_append, readQuoted_escape] at h
        obtain ⟨⟨text, rest⟩, read, same⟩ := Option.map_eq_some_iff.1 h
        cases same
        exact (closes_of_readQuoted quote read).escape
    · rw [List.cons_append, readQuoted_cons slash] at h
      split at h
      · cases h
        exact .early (fun d hd => List.mem_cons_of_mem c hd) rfl
      · obtain ⟨⟨text, rest⟩, read, same⟩ := Option.map_eq_some_iff.1 h
        cases same
        exact (closes_of_readQuoted quote read).cons slash
termination_by key.length

/-- A quoted text that goes on past the closing bracket has it inside. -/
theorem mem_of_readQuoted {q : Char} {gap cs text after : List Char}
    (quote : isBlank q = false) (other : q ≠ ']') (blank : ∀ c ∈ gap, isBlank c = true)
    (h : readQuoted q (gap ++ ']' :: cs) = some (text, after)) : ']' ∈ text := by
  induction gap generalizing text with
  | nil =>
    rw [List.nil_append, readQuoted_cons (by decide), if_neg (Ne.symm other)] at h
    obtain ⟨⟨text, rest⟩, -, same⟩ := Option.map_eq_some_iff.1 h
    cases same
    exact List.mem_cons_self
  | cons c gap ih =>
    have space := blank c List.mem_cons_self
    have noSlash : c ≠ '\\' := by
      rintro rfl
      exact absurd space (by decide)
    have noQuote : c ≠ q := by
      rintro rfl
      rw [space] at quote
      cases quote
    rw [List.cons_append, readQuoted_cons noSlash, if_neg noQuote] at h
    obtain ⟨⟨text, rest⟩, read, same⟩ := Option.map_eq_some_iff.1 h
    cases same
    exact List.mem_cons_of_mem c (ih (fun d hd => blank d (List.mem_cons_of_mem c hd)) read)

/-- No closing bracket comes next where another visible character does. -/
theorem ne_closeBracket {cs rest : List Char} {q : Char} {ts : List Token}
    (visible : isBlank q = false) (other : q ≠ ']') (none : ']' ∉ cs) :
    ¬ Lexes (cs ++ q :: rest) (.closeBracket :: ts) := by
  intro tokens
  have first : ∀ {c : Char} {more : List Char}, isBlank c = false → c ≠ ']' →
      ¬ Lexes (c :: more) (.closeBracket :: ts) := by
    intro c more visible other tokens
    obtain ⟨t, after, more, read, -, same⟩ := tokens.of_token visible
    exact other ((mark_of_readToken read).2.2 (List.cons.inj same).1.symm)
  induction cs with
  | nil => exact first visible other tokens
  | cons c cs ih =>
    cases blank : isBlank c with
    | true => exact ih (fun h => none (List.mem_cons_of_mem c h)) (tokens.of_blank blank)
    | false => exact first blank (fun same => none (same ▸ List.mem_cons_self)) tokens

/-! ## Brackets -/

/-- A text is its blanks around what is left without them. -/
theorem trimmed_split (cs : List Char) :
    ∃ before after, cs = before ++ trimmed cs ++ after ∧ (∀ c ∈ before, isBlank c = true) ∧
      (∀ c ∈ after, isBlank c = true) ∧ ∀ c ∈ (trimmed cs).head?, isBlank c = false := by
  obtain ⟨core, rest, ends⟩ : ∃ core rest, cs.dropWhile isBlank = core ++ rest ∧
      core = trimmed cs ∧ ∀ c ∈ rest, isBlank c = true := by
    have back := List.takeWhile_append_dropWhile (p := isBlank) (l := (cs.dropWhile isBlank).reverse)
    refine ⟨trimmed cs, ((cs.dropWhile isBlank).reverse.takeWhile isBlank).reverse, ?_, rfl, ?_⟩
    · rw [trimmed, ← List.reverse_append, back, List.reverse_reverse]
    · intro c hc
      exact List.mem_takeWhile_imp (List.mem_reverse.1 hc)
  obtain ⟨whole, rfl, blank⟩ := ends
  refine ⟨cs.takeWhile isBlank, rest, ?_, fun c hc => List.mem_takeWhile_imp hc, blank, ?_⟩
  · rw [List.append_assoc, ← whole, List.takeWhile_append_dropWhile]
  · intro c hc
    have first : c ∈ (cs.dropWhile isBlank).head? := by
      rw [whole, List.head?_append]
      simp [Option.mem_def.1 hc]
    have some : cs.dropWhile isBlank ≠ [] := by
      intro none
      rw [none] at first
      cases first
    have visible := List.head_dropWhile_not isBlank some
    rwa [(List.head_eq_iff_head?_eq_some some).2 first] at visible

theorem unquote?_eq_some {cs key : List Char} (h : unquote? cs = some key) :
    ∃ q, cs = q :: (key ++ [q]) ∧ (q = '"' ∨ q = '\x27') := by
  unfold unquote? at h
  split at h
  · next q rest =>
    split at h
    · next ends =>
      cases h
      obtain ⟨quote, last⟩ := Bool.and_eq_true_iff.1 ends
      obtain ⟨ys, rfl⟩ := List.getLast?_eq_some_iff.1 (by simpa using last)
      refine ⟨q, by simp, by simpa using quote⟩
    · cases h
  · cases h

/-- What follows a closing bracket and the blanks before it. -/
theorem lexes_of_close {gap tail : List Char} {ts : List Token}
    (blank : ∀ c ∈ gap, isBlank c = true) (h : Lexes (gap ++ ']' :: tail) (.closeBracket :: ts)) :
    Lexes tail ts := by
  obtain ⟨t, after, more, read, rest, same⟩ :=
    (h.of_blanks blank).of_token (show isBlank ']' = false by decide)
  cases read
  cases same
  exact rest

/-- A quoted key means the same to both readers exactly when no backslash is in it, but an escape
may make the quoted text go on past the bracket. -/
theorem key_read {q : Char} {key gap tail : List Char} {segment : Segment} {t : Token}
    {ts : List Token} (quote : q = '"' ∨ q = '\x27') (noBracket : ']' ∉ key)
    (blank : ∀ c ∈ gap, isBlank c = true)
    (tokens : Lexes (q :: (key ++ q :: (gap ++ ']' :: tail))) (t :: .closeBracket :: ts))
    (found : Condition.bracketed? t = some segment) :
    (Lexes tail ts ∧ (.field (String.ofList key) = segment ↔ '\\' ∉ key)) ∨
      ('\\' ∈ key ∧ ∃ name, segment = .field name ∧ ']' ∈ name.toList) := by
  have visible : isBlank q = false := by rcases quote with rfl | rfl <;> decide
  have noSlash : q ≠ '\\' := by rcases quote with rfl | rfl <;> decide
  have other : q ≠ ']' := by rcases quote with rfl | rfl <;> decide
  have noMark : ∀ cs, readMark? (q :: cs) = none := by
    rcases quote with rfl | rfl <;> exact fun cs => rfl
  obtain ⟨t', left, more, read, rest, same⟩ := tokens.of_token visible
  obtain ⟨rfl, rfl⟩ := List.cons.inj same
  simp only [readToken, noMark, quote, if_true] at read
  split at read
  · next text after close =>
    cases read
    cases found
    cases closes_of_readQuoted noSlash close with
    | plain none same after =>
      subst same after
      exact .inl ⟨lexes_of_close blank rest, by simp [none]⟩
    | escaped some shorter after =>
      subst after
      refine .inl ⟨lexes_of_close blank rest, iff_of_false ?_ (not_not_intro some)⟩
      intro same
      rw [Segment.field.injEq, String.ofList_inj] at same
      rw [same] at shorter
      exact Nat.lt_irrefl _ shorter
    | early inside after =>
      subst after
      exact absurd rest (ne_closeBracket visible other fun h => noBracket (inside _ h))
    | late some more inside =>
      refine .inr ⟨some, _, rfl, ?_⟩
      rw [String.toList_ofList]
      exact inside _ (mem_of_readQuoted visible other blank more)
  · cases read

/-- A place in brackets means the same to both readers exactly when it survives. -/
theorem place_read {cs gap tail : List Char} {n : Nat} {segment : Segment} {t : Token}
    {ts : List Token} (place : index? cs = some n) (blank : ∀ c ∈ gap, isBlank c = true)
    (tokens : Lexes (cs ++ (gap ++ ']' :: tail)) (t :: .closeBracket :: ts))
    (found : Condition.bracketed? t = some segment) :
    Lexes tail ts ∧ (.index n = segment ↔ Survives n) := by
  obtain ⟨digits, sign, some, all, rfl, bound⟩ := index?_eq_some place
  rcases sign with rfl | rfl
  · have next : ∀ c ∈ (gap ++ ']' :: tail).head?, isBlank c = true ∨ c = ']' := by
      intro c hc
      cases gap with
      | nil => exact .inr (Option.some.inj hc).symm
      | cons d gap =>
        obtain rfl := Option.some.inj hc
        exact .inl (blank d List.mem_cons_self)
    have read := readDigits_append all
      (fun c hc => by
        cases digit : isDigit c with
        | false => rfl
        | true =>
          rcases next c hc with space | rfl
          · rw [isBlank_of_isNameChar (isNameChar_of_isDigit digit)] at space
            cases space
          · cases digit)
      (fun d more same => by
        rcases next '.' (by rw [same]; rfl) with no | no <;> exact absurd no (by decide))
    obtain ⟨c, digits, rfl⟩ := List.exists_cons_of_ne_nil some
    have digit := all c List.mem_cons_self
    have char := isNameChar_of_isDigit digit
    obtain ⟨t', left, more, token, rest, same⟩ := tokens.of_token (isBlank_of_isNameChar char)
    obtain ⟨rfl, rfl⟩ := List.cons.inj same
    cases begins_of_readToken char token with
    | word noDigit _ => rw [digit] at noDigit; cases noDigit
    | number _ number =>
      cases read.symm.trans number
      exact ⟨lexes_of_close blank rest, by rw [eq_comm]; exact indexOf?_digits bound found⟩
    | negative dash _ =>
      subst dash
      cases digit
  · obtain ⟨t', left, more, token, -, -⟩ := tokens.of_token (show isBlank '+' = false by decide)
    cases token

/-- What both readers make of a bracket: the same segment exactly when it is plain, or a key
that an escape makes go on past the bracket. -/
theorem bracket_read {inner tail : List Char} {segment segment' : Segment} {t : Token}
    {ts : List Token} (noBracket : ']' ∉ inner) (found : bracketed? inner = some segment)
    (tokens : Lexes (inner ++ ']' :: tail) (t :: .closeBracket :: ts))
    (found' : Condition.bracketed? t = some segment') :
    (Lexes tail ts ∧ (segment = segment' ↔ (Part.bracket inner).Plain)) ∨
      (¬ (Part.bracket inner).Plain ∧
        ∃ name, segment' = .field name ∧ ']' ∈ name.toList) := by
  obtain ⟨before, after, split, blank, blank', -⟩ := trimmed_split inner
  -- a backslash is no blank, so it can only stand in the middle
  have slash : '\\' ∈ inner ↔ '\\' ∈ trimmed inner := by
    have noBlank : ∀ {cs : List Char}, (∀ c ∈ cs, isBlank c = true) → '\\' ∉ cs :=
      fun all member => absurd (all _ member) (by decide)
    conv_lhs => rw [split]
    simp [noBlank blank, noBlank blank']
  have noBracket' : ']' ∉ trimmed inner := by
    intro member
    rw [split] at noBracket
    exact noBracket (List.mem_append_left _ (List.mem_append_right _ member))
  rw [split, List.append_assoc, List.append_assoc] at tokens
  replace tokens := tokens.of_blanks blank
  unfold bracketed? at found
  simp only [Part.Plain, slash]
  split at found
  · next key quoted =>
    cases found
    obtain ⟨q, core, quote⟩ := unquote?_eq_some quoted
    rw [core] at tokens noBracket' ⊢
    have noPlace : index? (q :: (key ++ [q])) = none := by
      rcases quote with rfl | rfl <;> rfl
    have keySlash : '\\' ∈ q :: (key ++ [q]) ↔ '\\' ∈ key := by
      rcases quote with rfl | rfl <;> simp
    rw [noPlace, keySlash]
    simp only [Option.not_mem_none, false_implies, implies_true, and_true, not_not]
    refine key_read quote ?_ blank' ?_ found'
    · exact fun member => noBracket' (List.mem_cons_of_mem q (List.mem_append_left _ member))
    · simpa [List.append_assoc] using tokens
  · obtain ⟨n, place, rfl⟩ := Option.map_eq_some_iff.1 found
    obtain ⟨rest, same⟩ := place_read place blank' tokens found'
    refine .inl ⟨rest, ?_⟩
    obtain ⟨digits, sign, -, all, -, -⟩ := index?_eq_some place
    have noSlash : '\\' ∉ trimmed inner := by
      intro member
      rcases sign with sign | sign <;> rw [sign] at member
      · exact absurd (all _ member) (by decide)
      · rcases List.mem_cons.1 member with no | member
        · exact absurd no (by decide)
        · exact absurd (all _ member) (by decide)
    simp [place, noSlash, same]

end Stepwise.Path

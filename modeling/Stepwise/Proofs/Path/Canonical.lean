import Stepwise.Proofs.Path.Tokens

/-!
# Paths as they are written

`canonical` writes a path so that it can be read again: a name after a point where it is an
identifier, any other name as a quoted key, and a place in brackets. The reader of references gives
back the path that was written, whatever its names and places. So does the reader of conditions for
a path of names, as long as no identifier in it is a reserved word; places go through doubles
there, so it may change them.
-/

namespace Stepwise.Path

open Text Condition

/-! ## Writing -/

/-- A letter or a low line, and then characters of names. -/
def isIdentifier : List Char → Bool
  | c :: name => (isLetter c || c == '_') && name.all isNameChar
  | [] => false

/-- A segment as it is written behind others. -/
def written : Segment → List Char
  | .field name =>
    if isIdentifier name.toList then '.' :: name.toList
    else '[' :: ('"' :: (name.toList ++ ['"']) ++ [']'])
  | .index n => '[' :: (Nat.toDigits 10 n ++ [']'])

/-- A path as it is written. -/
def canonical (first : String) (path : List Segment) : String :=
  first ++ String.ofList (path.flatMap written)

/-- What can be written so that it is read again: a key without quotes, backslashes and closing
brackets, and a place that is no greater than any place can be. -/
def Writable : Segment → Prop
  | .field name => isIdentifier name.toList = false →
      '"' ∉ name.toList ∧ '\\' ∉ name.toList ∧ ']' ∉ name.toList
  | .index n => n < UInt64.size

instance : DecidablePred Writable
  | .field name => inferInstanceAs (Decidable (isIdentifier name.toList = false →
      '"' ∉ name.toList ∧ '\\' ∉ name.toList ∧ ']' ∉ name.toList))
  | .index n => inferInstanceAs (Decidable (n < UInt64.size))

/-- The words that mean something else in a condition. -/
def reserved : List String :=
  ["and", "or", "not", "in", "true", "True", "false", "False", "null", "None"]

/-! ## Identifiers -/

theorem isIdentifier_iff {cs : List Char} : isIdentifier cs = true ↔ ∃ c name, cs = c :: name ∧
    (isLetter c = true ∨ c = '_') ∧ ∀ d ∈ name, isNameChar d = true := by
  cases cs with
  | nil => simp [isIdentifier]
  | cons c name => simp [isIdentifier]

theorem isNameChar_of_start {c : Char} (start : isLetter c = true ∨ c = '_') :
    isNameChar c = true := by
  rcases start with letter | rfl
  · simp only [isNameChar, letter, Bool.true_or]
  · decide

theorem isDigit_of_start {c : Char} (start : isLetter c = true ∨ c = '_') : isDigit c = false := by
  rcases start with letter | rfl
  · have range : ∀ {low high : Char}, low ≤ c ∧ c ≤ high →
        low.toNat ≤ c.toNat ∧ c.toNat ≤ high.toNat := fun between => between
    refine Bool.eq_false_iff.2 fun digit => ?_
    simp only [isLetter, isDigit, Bool.or_eq_true, Bool.and_eq_true, decide_eq_true_eq]
      at letter digit
    have low := range digit
    rcases letter with letter | letter
    · have high := range letter
      simp only [show 'a'.toNat = 97 from rfl, show '9'.toNat = 57 from rfl] at low high
      omega
    · have high := range letter
      simp only [show 'A'.toNat = 65 from rfl, show '9'.toNat = 57 from rfl] at low high
      omega
  · decide

theorem ofWord_of_not_reserved {name : String} (free : name ∉ reserved) :
    Token.ofWord name = .word name := by
  simp only [reserved, List.mem_cons, List.not_mem_nil, or_false, not_or] at free
  simp [Token.ofWord, free]

/-! ## Places -/

theorem isDigit_of_mem_toDigits {n : Nat} {c : Char} (member : c ∈ Nat.toDigits 10 n) :
    isDigit c = true := by
  have digit := Nat.isDigit_of_mem_toDigits (by decide) (by decide) member
  simpa [Char.isDigit, isDigit, Char.le_def] using digit

theorem digitsValue_toDigits (n : Nat) : digitsValue (Nat.toDigits 10 n) = n := by
  have value := Nat.ofDigitChars_toDigits (n := n) (b := 10) (by decide) (by decide)
  simpa only [digitsValue, Nat.ofDigitChars, Nat.mul_comm] using value

theorem index?_toDigits {n : Nat} (bound : n < UInt64.size) :
    index? (Nat.toDigits 10 n) = some n := by
  rw [index?_digits Nat.toDigits_ne_nil (fun c => isDigit_of_mem_toDigits), digitsValue_toDigits,
    if_pos bound]

/-! ## References -/

/-- A text that starts and ends with no blank is not trimmed. -/
theorem trimmed_eq_self {cs : List Char} (starts : ∀ c ∈ cs.head?, isBlank c = false)
    (ends : ∀ c ∈ cs.getLast?, isBlank c = false) : trimmed cs = cs := by
  have kept : ∀ {cs : List Char}, (∀ c ∈ cs.head?, isBlank c = false) → cs.dropWhile isBlank = cs := by
    intro cs starts
    cases cs with
    | nil => rfl
    | cons c rest => rw [List.dropWhile_cons, starts c rfl, if_neg Bool.false_ne_true]
  rw [trimmed, kept starts, kept (by rwa [List.head?_reverse]), List.reverse_reverse]

theorem bracketed?_key (name : String) :
    bracketed? ('"' :: (name.toList ++ ['"'])) = some (.field name) := by
  have whole : trimmed ('"' :: (name.toList ++ ['"'])) = '"' :: (name.toList ++ ['"']) :=
    trimmed_eq_self (by simp; decide) (by simp [List.getLast?_cons]; decide)
  have key : unquote? ('"' :: (name.toList ++ ['"'])) = some name.toList := by
    simp [unquote?]
  rw [bracketed?, whole, key]
  simp

theorem bracketed?_place {n : Nat} (bound : n < UInt64.size) :
    bracketed? (Nat.toDigits 10 n) = some (.index n) := by
  have visible : ∀ c ∈ Nat.toDigits 10 n, isBlank c = false := fun c member =>
    isBlank_of_isNameChar (isNameChar_of_isDigit (isDigit_of_mem_toDigits member))
  have whole : trimmed (Nat.toDigits 10 n) = Nat.toDigits 10 n :=
    trimmed_eq_self (fun c first => visible c (List.mem_of_head? first))
      (fun c last => visible c (List.mem_of_getLast? last))
  have noKey : unquote? (Nat.toDigits 10 n) = none := by
    refine Option.eq_none_iff_forall_ne_some.2 fun key quoted => ?_
    obtain ⟨q, same, quote⟩ := unquote?_eq_some quoted
    have digit : isDigit q = true := isDigit_of_mem_toDigits (same ▸ List.mem_cons_self)
    rcases quote with rfl | rfl <;> cases digit
  rw [bracketed?, whole, noKey, index?_toDigits bound]
  rfl

theorem written_identifier {name : String} (identifier : isIdentifier name.toList = true) :
    ∃ c rest, written (.field name) = '.' :: c :: rest ∧ name = String.ofList (c :: rest) ∧
      (isLetter c = true ∨ c = '_') ∧ ∀ d ∈ c :: rest, isNameChar d = true := by
  obtain ⟨c, rest, chars, start, all⟩ := isIdentifier_iff.1 identifier
  refine ⟨c, rest, ?_, ?_, start, List.forall_mem_cons.2 ⟨isNameChar_of_start start, all⟩⟩
  · rw [written, if_pos identifier, chars]
  · rw [← chars, String.ofList_toList]

theorem written_key {name : String} (other : isIdentifier name.toList = false) :
    written (.field name) = '[' :: ('"' :: (name.toList ++ ['"']) ++ [']']) := by
  rw [written, if_neg (ne_true_of_eq_false other)]

/-- What is written is accepted as what it was. -/
theorem spells_written {path : List Segment} (writable : ∀ segment ∈ path, Writable segment) :
    Spells (path.flatMap written) path := by
  induction path with
  | nil => exact .nil
  | cons segment path ih =>
    rw [List.forall_mem_cons] at writable
    have spelled := ih writable.2
    rw [List.flatMap_cons]
    cases segment with
    | field name =>
      cases identifier : isIdentifier name.toList with
      | true =>
        obtain ⟨c, rest, same, rfl, start, all⟩ := written_identifier identifier
        have segment : nameSegment false (c :: rest) = .field (String.ofList (c :: rest)) :=
          nameSegment_of_not_digit (isNameChar_of_start start) (isDigit_of_start start)
        have name := Spells.name all spelled
        rwa [segment, ← List.cons_append, ← List.cons_append, ← same] at name
      | false =>
        obtain ⟨-, -, noBracket⟩ := writable.1 identifier
        have inner : ']' ∉ '"' :: (name.toList ++ ['"']) := by simp [noBracket]
        have key := Spells.bracket inner (bracketed?_key name) spelled
        rw [written_key identifier]
        simpa using key
    | index n =>
      have inner : ']' ∉ Nat.toDigits 10 n := fun member => by
        cases isDigit_of_mem_toDigits member
      have place := Spells.bracket inner (bracketed?_place writable.1) spelled
      rw [written]
      simpa using place

theorem visible_written (segment : Segment) :
    ∀ c ∈ (written segment).getLast?, isBlank c = false := by
  intro c last
  cases segment with
  | field name =>
    cases identifier : isIdentifier name.toList with
    | true =>
      obtain ⟨d, rest, same, -, -, all⟩ := written_identifier identifier
      rw [same, List.getLast?_cons_cons] at last
      exact isBlank_of_isNameChar (all c (List.mem_of_getLast? last))
    | false =>
      rw [written_key identifier, ← List.cons_append, List.getLast?_concat] at last
      cases last
      decide
  | index n =>
    rw [written, ← List.cons_append, List.getLast?_concat] at last
    cases last
    decide

theorem visible_append {front back : List Char} (h : ∀ c ∈ front.getLast?, isBlank c = false)
    (h' : ∀ c ∈ back.getLast?, isBlank c = false) :
    ∀ c ∈ (front ++ back).getLast?, isBlank c = false := by
  intro c last
  rw [List.getLast?_append] at last
  rcases Option.or_eq_some_iff.1 last with last | ⟨-, last⟩
  · exact h' c last
  · exact h c last

theorem visible_flatMap {front : List Char} (h : ∀ c ∈ front.getLast?, isBlank c = false)
    (path : List Segment) : ∀ c ∈ (front ++ path.flatMap written).getLast?, isBlank c = false := by
  induction path generalizing front with
  | nil => rwa [List.flatMap_nil, List.append_nil]
  | cons segment path ih =>
    rw [List.flatMap_cons, ← List.append_assoc]
    exact ih (visible_append h (visible_written segment))

theorem toList_canonical (first : String) (path : List Segment) :
    (canonical first path).toList = first.toList ++ path.flatMap written := by
  rw [canonical, String.toList_append, String.toList_ofList]

/-- The reader of references gives back what was written. -/
theorem read_written {first : String} {path : List Segment}
    (start : isIdentifier first.toList = true) (writable : ∀ segment ∈ path, Writable segment) :
    read (canonical first path) = .ok (.field first :: path) := by
  obtain ⟨c, name, chars, begins, others⟩ := isIdentifier_iff.1 start
  have all : ∀ d ∈ c :: name, isNameChar d = true :=
    List.forall_mem_cons.2 ⟨isNameChar_of_start begins, others⟩
  have visible : ∀ d ∈ c :: name, isBlank d = false := fun d member =>
    isBlank_of_isNameChar (all d member)
  have whole : trimmed (canonical first path).toList = c :: (name ++ path.flatMap written) := by
    rw [toList_canonical, chars]
    refine trimmed_eq_self (fun d head => ?_)
      (visible_flatMap (fun d last => visible d (List.mem_of_getLast? last)) path)
    cases head
    exact visible c List.mem_cons_self
  rw [read, whole, readChars_of_spells all (spells_written writable), ← chars, String.ofList_toList]

/-! ## Conditions -/

theorem readQuoted_key {q : Char} {key : List Char} (noSlash : '\\' ∉ key) (noQuote : q ∉ key)
    (slash : q ≠ '\\') (rest : List Char) : readQuoted q (key ++ q :: rest) = some (key, rest) := by
  induction key with
  | nil => rw [List.nil_append, readQuoted_cons slash, if_pos rfl]
  | cons c key ih =>
    rw [List.mem_cons, not_or] at noSlash noQuote
    rw [List.cons_append, readQuoted_cons (Ne.symm noSlash.1), if_neg (Ne.symm noQuote.1),
      ih noSlash.2 noQuote.2]
    rfl

theorem lexes_identifier {c : Char} {name rest : List Char} {ts : List Token}
    (start : isLetter c = true ∨ c = '_') (all : ∀ d ∈ c :: name, isNameChar d = true)
    (free : String.ofList (c :: name) ∉ reserved) (stop : ∀ d ∈ rest.head?, isNameChar d = false)
    (more : Lexes rest ts) :
    Lexes (c :: (name ++ rest)) (.word (String.ofList (c :: name)) :: ts) := by
  have char := isNameChar_of_start start
  have noQuote : ¬(c = '"' ∨ c = '\x27') := by
    rintro (rfl | rfl) <;> cases char
  have noDash : c ≠ '-' := by
    rintro rfl
    rcases start with letter | same
    · cases letter
    · cases same
  have noDigit := isDigit_of_start start
  obtain ⟨run, after⟩ := span_append (fun d member => all d (List.mem_cons_of_mem c member)) stop
  have read : readToken c (name ++ rest) = .ok (.word (String.ofList (c :: name)), rest) := by
    simp only [readToken, readMark?_of_isNameChar char, noQuote, noDash, noDigit, start, run, after,
      ofWord_of_not_reserved free, false_and, Bool.false_eq_true, if_true, if_false]
  exact .token (isBlank_of_isNameChar char) read more

/-- What is written is read as tokens of what it was, where no place and no reserved word is in
it. -/
theorem lexes_written {path : List Segment} (writable : ∀ segment ∈ path, Writable segment)
    (named : ∀ n, .index n ∉ path)
    (free : ∀ name, .field name ∈ path → isIdentifier name.toList = true → name ∉ reserved) :
    ∃ ts, Lexes (path.flatMap written) ts ∧ Follow ts path := by
  induction path with
  | nil => exact ⟨[], .nil, .nil⟩
  | cons segment path ih =>
    rw [List.forall_mem_cons] at writable
    obtain ⟨ts, tokens, follow⟩ := ih writable.2
      (fun n member => named n (List.mem_cons_of_mem _ member))
      (fun name member => free name (List.mem_cons_of_mem _ member))
    rw [List.flatMap_cons]
    cases segment with
    | index n => exact absurd List.mem_cons_self (named n)
    | field name =>
      cases identifier : isIdentifier name.toList with
      | true =>
        obtain ⟨c, rest, same, rfl, start, all⟩ := written_identifier identifier
        have word := lexes_identifier start all (free _ List.mem_cons_self identifier)
          (spells_written writable.2).stops tokens
        refine ⟨_, ?_, .dotted (t := .word _) rfl follow⟩
        rw [same]
        exact .token (by decide) rfl word
      | false =>
        obtain ⟨noQuote, noSlash, -⟩ := writable.1 identifier
        have quoted := readQuoted_key noSlash noQuote (by decide) (']' :: path.flatMap written)
        have text : readToken '"' (name.toList ++ '"' :: ']' :: path.flatMap written) =
            .ok (.text name, ']' :: path.flatMap written) := by
          simp [readToken, readMark?, quoted]
        have closed : Lexes (']' :: path.flatMap written) (.closeBracket :: ts) :=
          .token (by decide) rfl tokens
        have opened : Lexes ('[' :: '"' :: (name.toList ++ '"' :: ']' :: path.flatMap written))
            (.openBracket :: .text name :: .closeBracket :: ts) :=
          .token (by decide) rfl (.token (by decide) text closed)
        refine ⟨_, ?_, .bracketed (t := .text name) rfl follow⟩
        rw [written_key identifier]
        simpa using opened

/-- A path that was written is read again. The reader of references gives back any path; the
reader of conditions gives back a path of names in which no identifier is reserved. -/
theorem read_canonical {first : String} {path : List Segment}
    (start : isIdentifier first.toList = true) (writable : ∀ segment ∈ path, Writable segment) :
    read (canonical first path) = .ok (.field first :: path) ∧
      ((∀ n, .index n ∉ path) →
        (∀ name, .field name ∈ .field first :: path → isIdentifier name.toList = true →
          name ∉ reserved) →
        compile (canonical first path) = .ok (.path (.field first :: path))) := by
  refine ⟨read_written start writable, fun named free => ?_⟩
  obtain ⟨ts, tokens, follow⟩ := lexes_written writable named fun name member =>
    free name (List.mem_cons_of_mem _ member)
  obtain ⟨c, name, chars, begins, others⟩ := isIdentifier_iff.1 start
  have same : first = String.ofList (c :: name) := by rw [← chars, String.ofList_toList]
  have word := lexes_identifier begins
    (List.forall_mem_cons.2 ⟨isNameChar_of_start begins, others⟩)
    (same ▸ free first List.mem_cons_self start) (spells_written writable).stops tokens
  refine compile_of_lexes ?_ follow
  rw [toList_canonical, chars, same]
  exact word

/-- Names with dashes, with blanks and points, and none at all; the last place there is; and a name
of digits, which would be a place without its quotes. -/
theorem read_canonical_keys :
    let keys : List Segment := [.field "fetch-1", .field "a b.", .field "", .index (UInt64.size - 1)]
    let names : List Segment := [.field "0", .field "total"]
    (canonical "result" keys = "result.fetch-1[\"a b.\"][\"\"][18446744073709551615]" ∧
      read (canonical "result" keys) = .ok (.field "result" :: keys)) ∧
      canonical "vars" names = "vars[\"0\"].total" ∧
        compile (canonical "vars" names) = .ok (.path (.field "vars" :: names)) := by
  intro keys names
  refine ⟨⟨by decide, (read_canonical (by decide) (by decide)).1⟩, by decide,
    (read_canonical (by decide) (by decide)).2 ?_ ?_⟩
  · intro n member
    simp [names] at member
  · intro name member _
    simp only [names, List.mem_cons, Segment.field.injEq, List.not_mem_nil, or_false] at member
    rcases member with rfl | rfl | rfl <;> decide

end Stepwise.Path

import Stepwise.Condition.Evaluator
import Stepwise.Proofs.Path.Tokens

/-!
# Where the two readers of paths agree

A text may be a reference and also, as a condition, a lone path. Then both readers make the same
path of it exactly when it is plain, and a plain one has the same value in both places.
-/

namespace Stepwise.Path

open Text Condition

/-! ## Both readings side by side -/

/-- The parts of a text with the segments that the reader of references and the reader of
conditions make of them. -/
inductive Alongside : List Part → List Segment → List Segment → Prop
  | nil : Alongside [] [] []
  | agree {p : Part} {ps : List Part} {segment : Segment} {path path' : List Segment} :
      p.Plain → (∀ q ∈ ps.head?, ¬ (p.IsPlace ∧ q.IsPlace)) → Alongside ps path path' →
        Alongside (p :: ps) (segment :: path) (segment :: path')
  | differ {p : Part} {ps : List Part} {segment segment' : Segment} {path path' : List Segment} :
      ¬ p.Plain → segment ≠ segment' → Alongside ps path path' →
        Alongside (p :: ps) (segment :: path) (segment' :: path')
  | merge {p q : Part} {ps : List Part} {first second segment : Segment}
      {path path' : List Segment} :
      (p.IsPlace ∧ q.IsPlace) ∨ ¬ p.Plain → Alongside ps path path' →
        Alongside (p :: q :: ps) (first :: second :: path) (segment :: path')
  | astray {p : Part} {ps : List Part} {path path' : List Segment} {name : String} :
      ¬ p.Plain → .field name ∈ path' → ']' ∈ name.toList → Alongside (p :: ps) path path'

theorem Plain.tail {p : Part} {ps : List Part} (h : Plain (p :: ps)) : Plain ps :=
  ⟨fun q hq => h.each q (List.mem_cons_of_mem p hq), (List.isChain_cons.1 h.apart).2⟩

theorem Plain.cons {p : Part} {ps : List Part} (plain : p.Plain)
    (apart : ∀ q ∈ ps.head?, ¬ (p.IsPlace ∧ q.IsPlace)) (h : Plain ps) : Plain (p :: ps) := by
  refine ⟨fun q hq => ?_, List.isChain_cons.2 ⟨apart, h.apart⟩⟩
  rcases List.mem_cons.1 hq with rfl | hq
  · exact plain
  · exact h.each q hq

/-- Where the reader of conditions goes astray it reads a key with a closing bracket inside;
elsewhere it makes no more segments than the other one, and the same ones for a plain path. -/
theorem Alongside.cases {ps : List Part} {path path' : List Segment} (h : Alongside ps path path') :
    (¬ Plain ps ∧ ∃ name, .field name ∈ path' ∧ ']' ∈ name.toList) ∨
      (path'.length ≤ path.length ∧ (path = path' ↔ Plain ps)) := by
  induction h with
  | nil => exact .inr ⟨Nat.le_refl _, iff_of_true rfl ⟨by simp, .nil⟩⟩
  | agree plain apart _ ih =>
    rcases ih with ⟨spoilt, name, member, bracket⟩ | ⟨shorter, same⟩
    · exact .inl ⟨fun h => spoilt h.tail, name, List.mem_cons_of_mem _ member, bracket⟩
    · refine .inr ⟨Nat.succ_le_succ shorter, ?_⟩
      rw [List.cons.injEq, same]
      exact ⟨fun h => h.2.cons plain apart, fun h => ⟨rfl, h.tail⟩⟩
  | @differ p ps segment segment' path path' spoilt different _ ih =>
    have notPlain : ¬ Plain (p :: ps) := fun h => spoilt (h.each p List.mem_cons_self)
    rcases ih with ⟨-, name, member, bracket⟩ | ⟨shorter, -⟩
    · exact .inl ⟨notPlain, name, List.mem_cons_of_mem _ member, bracket⟩
    · exact .inr ⟨Nat.succ_le_succ shorter,
        iff_of_false (fun h => different (List.cons.inj h).1) notPlain⟩
  | @merge p q ps first second segment path path' spoilt _ ih =>
    have notPlain : ¬ Plain (p :: q :: ps) := by
      intro h
      rcases spoilt with places | spoilt
      · exact (List.isChain_cons.1 h.apart).1 q rfl places
      · exact spoilt (h.each p List.mem_cons_self)
    rcases ih with ⟨-, name, member, bracket⟩ | ⟨shorter, -⟩
    · exact .inl ⟨notPlain, name, List.mem_cons_of_mem _ member, bracket⟩
    · refine .inr ⟨by simp only [List.length_cons]; omega, iff_of_false (fun h => ?_) notPlain⟩
      have := congrArg List.length h
      simp only [List.length_cons] at this
      omega
  | astray spoilt member bracket =>
    exact .inl ⟨fun h => spoilt (h.each _ List.mem_cons_self), _, member, bracket⟩

theorem dotted?_ofWord {s : String} {segment : Segment}
    (h : dotted? (Token.ofWord s) = some segment) : segment = .field s := by
  unfold Token.ofWord at h
  repeat' split at h
  all_goals cases h
  rfl

theorem not_mem_of_isNameChar {name : List Char} (all : ∀ d ∈ name, isNameChar d = true) :
    ']' ∉ name :=
  fun member => absurd (all _ member) (by decide)

theorem no_bracket_of_bracketed? {inner : List Char} {name : String} (h : ']' ∉ inner)
    (found : bracketed? inner = some (.field name)) : ']' ∉ name.toList := by
  obtain ⟨before, after, split, -⟩ := trimmed_split inner
  unfold bracketed? at found
  split at found
  · next key quoted =>
    cases found
    obtain ⟨q, core, -⟩ := unquote?_eq_some quoted
    rw [String.toList_ofList]
    intro member
    rw [split, core] at h
    exact h (by simp [member])
  · obtain ⟨n, -, no⟩ := Option.map_eq_some_iff.1 found
    cases no

/-- No name that the reader of references makes has a closing bracket inside. -/
theorem Spells.no_bracket {cs : List Char} {path : List Segment} (h : Spells cs path) :
    ∀ name, .field name ∈ path → ']' ∉ name.toList := by
  induction h with
  | nil => simp
  | @name c text rest path chars _ ih =>
    intro name member
    rcases List.mem_cons.1 member with same | member
    · unfold nameSegment at same
      rw [if_neg (by simp)] at same
      split at same <;> cases same
      rw [String.toList_ofList]
      exact not_mem_of_isNameChar chars
    · exact ih name member
  | bracket noBracket found _ ih | pointBracket noBracket found _ ih =>
    intro name member
    rcases List.mem_cons.1 member with rfl | member
    · exact no_bracket_of_bracketed? noBracket found
    · exact ih name member

/-- Where a name ends. -/
theorem Spells.span {name rest post : List Char} {path : List Segment}
    (all : ∀ d ∈ name, isNameChar d = true) (h : Spells rest path)
    (gap : ∀ c ∈ post, isBlank c = true) :
    (name ++ rest ++ post).takeWhile isNameChar = name ∧
      (name ++ rest ++ post).dropWhile isNameChar = rest ++ post := by
  rw [List.append_assoc]
  exact span_append all (h.stop gap)

/-- A name that starts with a letter or a low line is plain. -/
theorem plain_word {c : Char} (name : List Char) (noDigit : isDigit c = false) (noDash : c ≠ '-') :
    (Part.name (c :: name)).Plain ∧ ¬ (Part.name (c :: name)).IsPlace := by
  have noPlace : ¬ (Part.name (c :: name)).IsPlace := by
    intro place
    rw [place c List.mem_cons_self] at noDigit
    cases noDigit
  exact ⟨⟨fun dash => noDash (Option.some.inj dash), fun place => absurd place noPlace⟩, noPlace⟩

/-- Both readers go through a text part by part. The induction is on its length, since a number
may take two names at once. -/
theorem alongside {n : Nat} {cs post : List Char} {path path' : List Segment} {ts : List Token}
    (size : cs.length ≤ n) (spelled : Spells cs path) (gap : ∀ c ∈ post, isBlank c = true)
    (tokens : Lexes (cs ++ post) ts) (follow : Follow ts path') :
    Alongside (parts cs) path path' := by
  induction n generalizing cs path path' ts with
  | zero =>
    obtain rfl := List.eq_nil_of_length_eq_zero (Nat.le_zero.1 size)
    cases spelled
    rw [List.nil_append, ← List.append_nil post] at tokens
    cases tokens.of_blanks gap
    cases follow
    rw [parts]
    exact .nil
  | succ n ih =>
    cases spelled with
    | nil => exact ih (Nat.zero_le n) .nil tokens follow
    | @name c name rest path chars spelled =>
      simp only [List.length_cons, List.length_append] at size
      rw [parts_point, parts_name chars spelled]
      simp only [List.cons_append] at tokens
      obtain ⟨t, _, more, read, named, rfl⟩ := tokens.of_token (show isBlank '.' = false by decide)
      cases read
      cases follow with
      | @dotted t segment ts path' found follow =>
      have char := chars c List.mem_cons_self
      have chars' : ∀ d ∈ name, isNameChar d = true :=
        fun d hd => chars d (List.mem_cons_of_mem c hd)
      obtain ⟨t', after, more, read, left, same⟩ := named.of_token (isBlank_of_isNameChar char)
      obtain ⟨rfl, rfl⟩ := List.cons.inj same
      cases begins_of_readToken char read with
      | word noDigit noDash =>
        obtain ⟨run, stop⟩ := spelled.span chars' gap
        rw [stop] at left
        rw [run] at found
        obtain ⟨plain, noPlace⟩ := plain_word name noDigit noDash
        rw [dotted?_ofWord found, nameSegment_of_not_digit char noDigit]
        exact .agree plain (fun q _ places => noPlace places.1) (ih (by omega) spelled left follow)
      | number digit number =>
        rw [List.append_assoc, ← List.cons_append] at number
        obtain ⟨digits, rfl, takes⟩ := takes_of_readDigits chars spelled gap number left follow
        cases takes with
        | one noPlace =>
          have same := nameSegment_digits (List.cons_ne_nil c name) digits found
          have next := ih (by omega) spelled left follow
          by_cases plain : (Part.name (c :: name)).Plain
          · rw [same.2 plain]
            exact .agree plain (fun q hq places => noPlace q hq places.2) next
          · exact .differ plain (fun h => plain (same.1 h)) next
        | @two c' name' after _ more split segments digits' spelled' =>
          subst split segments
          simp only [List.length_cons, List.length_append] at size
          rw [parts_point, parts_name (fun d hd => isNameChar_of_isDigit (digits' d hd)) spelled']
          exact .merge (.inl ⟨digits, digits'⟩) (ih (by omega) spelled' left follow)
      | negative dash number =>
        have spoilt : ¬ (Part.name (c :: name)).Plain := fun plain => plain.1 (by rw [dash]; rfl)
        rw [List.append_assoc] at number
        obtain ⟨-, -, takes⟩ := takes_of_readDigits chars' spelled gap number left follow
        cases takes with
        | one _ =>
          refine .differ spoilt ?_ (ih (by omega) spelled left follow)
          obtain ⟨n, rfl⟩ := indexOf?_eq_some found
          rw [nameSegment_of_not_digit char (by rw [dash]; decide)]
          simp
        | @two c' name' after _ more split segments digits' spelled' =>
          subst split segments
          simp only [List.length_cons, List.length_append] at size
          rw [parts_point, parts_name (fun d hd => isNameChar_of_isDigit (digits' d hd)) spelled']
          exact .merge (.inr spoilt) (ih (by omega) spelled' left follow)
    | @bracket inner rest segment path noBracket found spelled =>
      simp only [List.length_cons, List.length_append] at size
      rw [parts_bracket noBracket]
      simp only [List.cons_append, List.append_assoc] at tokens
      obtain ⟨t, _, more, read, inside, rfl⟩ := tokens.of_token (show isBlank '[' = false by decide)
      cases read
      cases follow with
      | bracketed found' follow =>
      rcases bracket_read noBracket found inside found' with
        ⟨left, same⟩ | ⟨spoilt, name, rfl, member⟩
      · have next := ih (by omega) spelled left follow
        by_cases plain : (Part.bracket inner).Plain
        · rw [same.2 plain]
          exact .agree plain (fun q _ places => places.1) next
        · exact .differ plain (fun h => plain (same.1 h)) next
      · exact .astray spoilt List.mem_cons_self member
    | pointBracket noBracket found spelled =>
      simp only [List.cons_append] at tokens
      obtain ⟨t, _, more, read, inside, rfl⟩ := tokens.of_token (show isBlank '.' = false by decide)
      cases read
      obtain ⟨t, _, more, read, _, rfl⟩ := inside.of_token (show isBlank '[' = false by decide)
      cases read
      cases follow with
      | dotted found' _ => cases found'

/-- The two readings of a text that is a reference and also one path as a condition. -/
theorem alongside_of_read {text : String} {path path' : List Segment}
    (reference : read text = .ok path) (condition : compile text = .ok (.path path')) :
    Alongside (parts (trimmed text.toList)) path path' ∧
      ∀ name, .field name ∈ path → ']' ∉ name.toList := by
  obtain ⟨tokens, lexed, shape⟩ := path_of_compile condition
  obtain ⟨before, after, split, blank, blank', -⟩ := trimmed_split text.toList
  rw [split, List.append_assoc] at lexed
  replace lexed := lexed.of_blanks blank
  unfold read at reference
  split at reference
  · next found =>
    cases reference
    rcases spells_of_readChars found with ⟨rest, bracket⟩ | ⟨c, name, rest, more, same, chars, rfl, spelled⟩
    · rw [bracket, List.cons_append] at lexed
      obtain ⟨t, _, ts, read, -, rfl⟩ := lexed.of_token (show isBlank '[' = false by decide)
      cases read
      obtain ⟨name, more, segments, no, -⟩ := shape (by simp)
      cases no
    · have char := chars c List.mem_cons_self
      have chars' : ∀ d ∈ name, isNameChar d = true :=
        fun d hd => chars d (List.mem_cons_of_mem c hd)
      rw [same, parts_name chars spelled]
      rw [same, List.cons_append] at lexed
      obtain ⟨t, left, ts, read, lexed, rfl⟩ := lexed.of_token (isBlank_of_isNameChar char)
      cases begins_of_readToken char read with
      | word noDigit noDash =>
        obtain ⟨run, stop⟩ := spelled.span chars' blank'
        rw [stop] at lexed
        rw [run] at shape
        obtain ⟨-, -, -, noParen⟩ := ofWord_ne_mark (String.ofList (c :: name))
        obtain ⟨root, tail, path', first, rfl, follow⟩ := shape (by simpa using noParen)
        obtain ⟨word, rfl⟩ := List.cons.inj first
        have named : dotted? (.ofWord (String.ofList (c :: name))) = some (.field root) := by
          rw [word]
          rfl
        rw [dotted?_ofWord named]
        obtain ⟨plain, noPlace⟩ := plain_word name noDigit noDash
        refine ⟨.agree plain (fun q _ places => noPlace places.1)
          (alongside (Nat.le_refl _) spelled blank' lexed follow), fun key member => ?_⟩
        rcases List.mem_cons.1 member with first' | member
        · rw [Segment.field.inj first', String.toList_ofList]
          exact not_mem_of_isNameChar chars
        · exact spelled.no_bracket key member
      | number _ _ =>
        obtain ⟨root, tail, path', first, -⟩ := shape (by simp)
        cases first
      | negative _ _ =>
        obtain ⟨root, tail, path', first, -⟩ := shape (by simp)
        cases first
  · cases reference

/-- A text that is a reference and also one path as a condition is the same path to both readers
exactly when it is plain, and then has the same value in every scope. -/
theorem readers_agree_iff {text : String} {path path' : List Segment}
    (reference : read text = .ok path) (condition : compile text = .ok (.path path')) :
    (path = path' ↔ Plain (parts (trimmed text.toList))) ∧
      (Plain (parts (trimmed text.toList)) → ∀ scope value,
        resolve scope text = .ok (some value) ↔
          (compile text).bind (Expr.eval scope) = .ok value) := by
  obtain ⟨along, noBracket⟩ := alongside_of_read reference condition
  have same : path = path' ↔ Plain (parts (trimmed text.toList)) := by
    rcases along.cases with ⟨spoilt, name, member, bracket⟩ | ⟨-, same⟩
    · exact iff_of_false (fun h => noBracket name (h ▸ member) bracket) spoilt
    · exact same
  refine ⟨same, fun plain scope value => ?_⟩
  obtain rfl := same.2 plain
  simp only [resolve, reference, condition, Except.map, Except.bind, Expr.eval]
  cases lookup scope path <;> simp

/-! ## Two readings of one text -/

/-- Both readers find the same path here. -/
theorem compile_item : compile "items[3].name"
    = .ok (.path [.field "items", .index 3, .field "name"]) := by
  have place : indexOf? (numberValue false ['3'] []) = some (.index 3) := by decide +kernel
  have chars : "items[3].name".toList
      = ['i', 't', 'e', 'm', 's', '[', '3', ']', '.', 'n', 'a', 'm', 'e'] := by decide +kernel
  have tokens : lex "items[3].name".toList 0 = .ok [⟨.word "items", 0⟩, ⟨.openBracket, 5⟩,
      ⟨.number (numberValue false ['3'] []), 6⟩, ⟨.closeBracket, 7⟩, ⟨.dot, 8⟩,
      ⟨.word "name", 9⟩] := by
    rw [chars]
    exact lex_cons (by decide) rfl (lex_cons (by decide) rfl (lex_cons (by decide) rfl
      (lex_cons (by decide) rfl (lex_cons (by decide) rfl (lex_cons (by decide) rfl (lex_nil 13))))))
  refine compile_of_segments tokens
    (?_ : _ = Except.ok ⟨[.index 3, .field "name"], [], Nat.zero_le _⟩) rfl
  simp [Condition.segments, Condition.bracketed?, dotted?, place, Except.map, Continued.cons]

theorem readers_agree_iff_item :
    read "items[3].name" = .ok [.field "items", .index 3, .field "name"] ∧
      compile "items[3].name" = .ok (.path [.field "items", .index 3, .field "name"]) ∧
        Plain (parts (trimmed "items[3].name".toList)) := by
  have reference : read "items[3].name" = .ok [.field "items", .index 3, .field "name"] := by cbv
  exact ⟨reference, compile_item, (readers_agree_iff reference compile_item).1.1 rfl⟩

/-- Two places in a row: the reader of conditions takes them for one number with a point, stops
one step above, and so finds another value. -/
theorem readers_differ :
    read "items.1.0" = .ok [.field "items", .index 1, .index 0] ∧
      compile "items.1.0" = .ok (.path [.field "items", .index 1]) ∧
        ∃ scope, resolve scope "items.1.0" = .ok (some (.int 0)) ∧
          (compile "items.1.0").bind (Expr.eval scope) = .ok (.arr [.int 0]) := by
  have number : indexOf? (numberValue false ['1'] ['0']) = some (.index 1) := by decide +kernel
  have chars : "items.1.0".toList = ['i', 't', 'e', 'm', 's', '.', '1', '.', '0'] := by
    decide +kernel
  have tokens : lex "items.1.0".toList 0 = .ok [⟨.word "items", 0⟩, ⟨.dot, 5⟩,
      ⟨.number (numberValue false ['1'] ['0']), 6⟩] := by
    rw [chars]
    exact lex_cons (by decide) rfl (lex_cons (by decide) rfl (lex_cons (by decide) rfl
      (lex_nil 9)))
  have reference : read "items.1.0" = .ok [.field "items", .index 1, .index 0] := by cbv
  have condition : compile "items.1.0" = .ok (.path [.field "items", .index 1]) := by
    refine compile_of_segments tokens (?_ : _ = Except.ok ⟨[.index 1], [], Nat.zero_le _⟩) rfl
    simp [Condition.segments, dotted?, number, Except.map, Continued.cons]
  refine ⟨reference, condition, ⟨[("items", .arr [.int 5, .arr [.int 0]])], []⟩, ?_, ?_⟩
  · rw [resolve, reference]
    rfl
  · rw [condition]
    rfl

end Stepwise.Path

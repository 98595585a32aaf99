import Mathlib.Data.List.TakeWhile
import Stepwise.Path.Reader

/-!
# The parts of a path

A path that the reader of references accepts is a row of names, each after a point but the first,
and of brackets. `parts` cuts any text into them; `Spells` says what the segments of a text are
that follows the first name.
-/

namespace Stepwise.Path

open Text

/-- A name, or what stands between two brackets. -/
inductive Part where
  | name (text : List Char)
  | bracket (inner : List Char)
deriving DecidableEq, Repr

/-- The parts of a text, from the left. -/
def parts (cs : List Char) : List Part :=
  match cs with
  | [] => []
  | c :: rest =>
    if c = '[' then .bracket (rest.takeWhile (· ≠ ']')) :: parts (rest.dropWhile (· ≠ ']')).tail
    else if isNameChar c then
      .name (c :: rest.takeWhile isNameChar) :: parts (rest.dropWhile isNameChar)
    else parts rest
termination_by cs.length
decreasing_by
  · have := length_dropWhile_le (· ≠ ']') rest
    simp only [List.length_tail, List.length_cons]
    omega
  · have := length_dropWhile_le isNameChar rest
    simp only [List.length_cons]
    omega
  · simp

/-! ## Accepted texts -/

/-- The segments of an accepted text after the first name. -/
inductive Spells : List Char → List Segment → Prop
  | nil : Spells [] []
  | name {c : Char} {name rest : List Char} {path : List Segment} :
      (∀ d ∈ c :: name, isNameChar d = true) → Spells rest path →
        Spells ('.' :: c :: (name ++ rest)) (nameSegment false (c :: name) :: path)
  | bracket {inner rest : List Char} {segment : Segment} {path : List Segment} :
      ']' ∉ inner → bracketed? inner = some segment → Spells rest path →
        Spells ('[' :: (inner ++ ']' :: rest)) (segment :: path)
  | pointBracket {inner rest : List Char} {segment : Segment} {path : List Segment} :
      ']' ∉ inner → bracketed? inner = some segment → Spells rest path →
        Spells ('.' :: '[' :: (inner ++ ']' :: rest)) (segment :: path)

/-- What an accepted text starts with. -/
theorem Spells.head {cs : List Char} {path : List Segment} (h : Spells cs path) :
    ∀ c ∈ cs.head?, c = '.' ∨ c = '[' := by
  cases h with
  | nil => simp
  | name => simp
  | bracket => simp
  | pointBracket => simp

/-- A run of characters ends where one comes that is not of its kind. -/
theorem span_append {p : Char → Bool} {run rest : List Char} (all : ∀ c ∈ run, p c = true)
    (stop : ∀ c ∈ rest.head?, p c = false) :
    (run ++ rest).takeWhile p = run ∧ (run ++ rest).dropWhile p = rest := by
  rw [List.takeWhile_append_of_pos all, List.dropWhile_append_of_pos all]
  cases rest with
  | nil => simp
  | cons c rest => simp [stop c rfl]

/-- The characters between an opening bracket and the next closing one, and what follows. -/
theorem split_of_bracket {rest after : List Char} {c : Char}
    (h : rest.dropWhile (· ≠ ']') = c :: after) :
    rest = rest.takeWhile (· ≠ ']') ++ ']' :: after := by
  have closing : c = ']' := by
    have := List.head_dropWhile_not (· ≠ ']') (by rw [h]; exact List.cons_ne_nil c after)
    simp only [h, List.head_cons] at this
    simpa using this
  have whole := (List.takeWhile_append_dropWhile (p := (· ≠ ']')) (l := rest)).symm
  rwa [h, closing] at whole

theorem not_mem_takeWhile_bracket (rest : List Char) : ']' ∉ rest.takeWhile (· ≠ ']') := by
  intro member
  simpa using List.mem_takeWhile_imp member

theorem spells_of_segments {cs : List Char} {pos : Nat} {first opened : Bool}
    {path : List Segment} (h : segments cs pos first opened = .ok path) (later : first = false)
    (something : opened = true → cs ≠ []) :
    Spells ((if opened then ['.'] else []) ++ cs) path := by
  fun_induction segments cs pos first opened generalizing path with
  | case1 pos first opened =>
    cases h
    cases opened with
    | false => exact .nil
    | true => exact absurd rfl (something rfl)
  | case2 => cases h
  | case3 pos first opened c rest point more ih =>
    obtain ⟨rfl, rfl⟩ := point
    exact ih h later fun _ => by simpa using more
  | case4 => cases h
  | case5 => cases h
  | case6 pos first opened rest inner closing after split segment found _ more read _ =>
    rename_i ih
    cases h
    have spelled : Spells after more := ih read rfl (fun no => by cases no)
    rw [split_of_bracket split]
    cases opened with
    | false => exact .bracket (not_mem_takeWhile_bracket rest) found spelled
    | true => exact .pointBracket (not_mem_takeWhile_bracket rest) found spelled
  | case7 => cases h
  | case8 pos first opened c rest _ _ start name _ more read =>
    rename_i ih
    cases h
    subst later
    have spelled : Spells (rest.dropWhile isNameChar) more := ih read rfl (fun no => by cases no)
    obtain ⟨rfl, char⟩ := Bool.and_eq_true_iff.1 start
    have all : ∀ d ∈ name, isNameChar d = true := by
      intro d hd
      rcases List.mem_cons.1 hd with rfl | hd
      · exact char
      · exact List.mem_takeWhile_imp hd
    have whole := Spells.name all spelled
    rwa [List.takeWhile_append_dropWhile] at whole
  | case9 => cases h
  | case10 => cases h

/-- A path that is accepted starts with a bracket, or with a name. -/
theorem spells_of_readChars {cs : List Char} {path : List Segment} (h : readChars cs = .ok path) :
    (∃ rest, cs = '[' :: rest) ∨
      ∃ c name rest more, cs = c :: (name ++ rest) ∧ (∀ d ∈ c :: name, isNameChar d = true) ∧
        path = .field (String.ofList (c :: name)) :: more ∧ Spells rest more := by
  unfold readChars at h
  split at h
  · cases h
  cases cs with
  | nil => contradiction
  | cons c rest =>
    by_cases bracket : c = '['
    · exact .inl ⟨rest, by rw [bracket]⟩
    refine .inr ?_
    rw [segments.eq_def] at h
    simp only [Bool.true_eq_false, and_false, if_false, bracket, Bool.true_and] at h
    split at h
    · next char =>
      split at h
      · next more read =>
        cases h
        refine ⟨c, rest.takeWhile isNameChar, rest.dropWhile isNameChar, more, ?_, ?_, rfl, ?_⟩
        · rw [List.takeWhile_append_dropWhile]
        · intro d hd
          rcases List.mem_cons.1 hd with rfl | hd
          · exact char
          · exact List.mem_takeWhile_imp hd
        · exact spells_of_segments read rfl (fun no => by cases no)
      · cases h
    · cases h

/-! ## Reading what is accepted -/

theorem segments_point {rest : List Char} (more : rest ≠ []) (pos : Nat) (first : Bool) :
    segments ('.' :: rest) pos first false = segments rest (pos + 1) first true := by
  rw [segments, if_pos ⟨rfl, rfl⟩, if_neg (by simpa using more)]

theorem segments_bracket {inner rest : List Char} {segment : Segment} {path : List Segment}
    {pos : Nat} {first opened : Bool} (noBracket : ']' ∉ inner)
    (found : bracketed? inner = some segment)
    (more : segments rest (pos + inner.length + 2) false false = .ok path) :
    segments ('[' :: (inner ++ ']' :: rest)) pos first opened = .ok (segment :: path) := by
  have others : ∀ c ∈ inner, decide (c ≠ ']') = true :=
    fun c member => decide_eq_true fun same => noBracket (same ▸ member)
  have stop : ∀ c ∈ (']' :: rest).head?, decide (c ≠ ']') = false := by simp
  obtain ⟨run, after⟩ := span_append others stop
  rw [segments, if_neg (by simp), if_pos rfl]
  dsimp only
  split
  · next none =>
    rw [after] at none
    cases none
  · next split =>
    rw [after] at split
    cases split
    rw [run, found]
    dsimp only
    rw [more]

theorem segments_name {c : Char} {name rest : List Char} {path : List Segment} {pos : Nat}
    {first : Bool} (all : ∀ d ∈ c :: name, isNameChar d = true)
    (stop : ∀ d ∈ rest.head?, isNameChar d = false)
    (more : segments rest (pos + (c :: name).length) false false = .ok path) :
    segments (c :: (name ++ rest)) pos first true =
      .ok (nameSegment first (c :: name) :: path) := by
  have char := all c List.mem_cons_self
  have noBracket : c ≠ '[' := by
    rintro rfl
    cases char
  obtain ⟨run, after⟩ := span_append (fun d member => all d (List.mem_cons_of_mem c member)) stop
  rw [segments, if_neg (by simp), if_neg noBracket, if_pos (by rw [char]; rfl)]
  dsimp only
  rw [after, run, more]

theorem Spells.stops {cs : List Char} {path : List Segment} (h : Spells cs path) :
    ∀ c ∈ cs.head?, isNameChar c = false := by
  intro c first
  rcases h.head c first with rfl | rfl <;> decide

theorem segments_of_spells {cs : List Char} {path : List Segment} (h : Spells cs path) (pos : Nat) :
    segments cs pos false false = .ok path := by
  induction h generalizing pos with
  | nil => rw [segments]
  | name all spelled ih =>
    rw [segments_point (List.cons_ne_nil _ _)]
    exact segments_name all spelled.stops (ih _)
  | bracket noBracket found _ ih => exact segments_bracket noBracket found (ih _)
  | pointBracket noBracket found _ ih =>
    rw [segments_point (List.cons_ne_nil _ _)]
    exact segments_bracket noBracket found (ih _)

/-- A name and what is accepted after it are read. -/
theorem readChars_of_spells {c : Char} {name rest : List Char} {path : List Segment}
    (all : ∀ d ∈ c :: name, isNameChar d = true) (h : Spells rest path) :
    readChars (c :: (name ++ rest)) = .ok (.field (String.ofList (c :: name)) :: path) := by
  rw [readChars, if_neg (by simp)]
  exact segments_name all h.stops (segments_of_spells h _)

end Stepwise.Path

import Stepwise.Proofs.Path.Parts
import Stepwise.Proofs.Template.Dependence

/-!
# One scan of a template

A placeholder is written as `$`, an opening brace, at least one character that is no brace, and a
closing brace. `Cut` finds the placeholders of a text in one scan from the left: a character stays
by itself only where no placeholder starts, and what follows a placeholder is cut by itself.
`Comes` says what the text becomes: a lone placeholder its value, of whatever kind, and any other
text itself, with the value of each placeholder written in its place. What is written there comes
from no cut, so it is not looked at again. `resolve` follows this scan in every text of a value and
leaves the rest of the value as it is (`resolve_scans`).
-/

namespace Stepwise.Template

/-! ## The scan -/

/-- What may stand between the braces of a placeholder. -/
structure IsBody (body : List Char) : Prop where
  nonempty : body ≠ []
  no_brace : ∀ c ∈ body, c ≠ '\x7b' ∧ c ≠ '\x7d'

/-- A placeholder as it is written. -/
def written (body : List Char) : List Char := '$' :: '\x7b' :: (body ++ ['\x7d'])

/-- A placeholder stands somewhere in a text. -/
def StandsIn (body cs : List Char) : Prop :=
  IsBody body ∧ ∃ front back, cs = front ++ written body ++ back

/-- A text is cut from the left into its placeholders and the characters around them. -/
inductive Cut : List Char → List Piece → Prop
  | nil : Cut [] []
  | placeholder {body rest : List Char} {ps : List Piece} (fits : IsBody body) :
      Cut rest ps → Cut (written body ++ rest) (.placeholder body :: ps)
  | plain {c : Char} {rest : List Char} {ps : List Piece}
      (none : ∀ body back, IsBody body → c :: rest ≠ written body ++ back) :
      Cut rest ps → Cut (c :: rest) (.plain c :: ps)

theorem isBrace_eq_false {c : Char} : isBrace c = false ↔ c ≠ '\x7b' ∧ c ≠ '\x7d' := by
  rw [isBrace, Bool.or_eq_false_iff, beq_eq_false_iff_ne, beq_eq_false_iff_ne]

theorem placeholder?_written {body : List Char} (fits : IsBody body) (rest : List Char) :
    placeholder? (written body ++ rest) = some (body, rest) := by
  have kept : ∀ c ∈ body, (!isBrace c) = true := fun c member => by
    rw [isBrace_eq_false.2 (fits.no_brace c member)]
    rfl
  have closed : ∀ c ∈ ('\x7d' :: rest).head?, (!isBrace c) = false := fun c first => by
    cases first
    rfl
  obtain ⟨taken, dropped⟩ := Path.span_append kept closed
  obtain ⟨b, others, rfl⟩ := List.exists_cons_of_ne_nil fits.nonempty
  have opened : written (b :: others) ++ rest =
      '$' :: '\x7b' :: (b :: others ++ '\x7d' :: rest) := by
    simp [written]
  rw [opened]
  unfold placeholder?
  simp only [taken, dropped]

/-- What `placeholder?` finds is a placeholder as it is written. -/
theorem placeholder?_eq_some {cs body rest : List Char} :
    placeholder? cs = some (body, rest) ↔ IsBody body ∧ cs = written body ++ rest := by
  refine ⟨fun found => ?_, fun ⟨fits, same⟩ => same ▸ placeholder?_written fits rest⟩
  unfold placeholder? at found
  split at found
  · next inner =>
    split at found
    · next b others after taken dropped =>
      cases found
      have braceless : ∀ c ∈ b :: others, c ≠ '\x7b' ∧ c ≠ '\x7d' := fun c member => by
        have kept := List.mem_takeWhile_imp (taken ▸ member)
        exact isBrace_eq_false.1 (Bool.not_eq_true' _ ▸ kept)
      have whole := List.takeWhile_append_dropWhile (p := fun c => !isBrace c) (l := inner)
      rw [taken, dropped] at whole
      refine ⟨⟨List.cons_ne_nil _ _, braceless⟩, ?_⟩
      rw [← whole]
      simp [written]
    · cases found
  · cases found

theorem pieces_of_some {cs body rest : List Char} (found : placeholder? cs = some (body, rest)) :
    pieces cs = .placeholder body :: pieces rest := by
  rw [pieces]
  split
  · next found' =>
    cases found.symm.trans found'
    rfl
  · next missed =>
    rw [found] at missed
    cases missed

theorem pieces_of_none {c : Char} {rest : List Char} (missed : placeholder? (c :: rest) = none) :
    pieces (c :: rest) = .plain c :: pieces rest := by
  rw [pieces]
  split
  · next found =>
    rw [missed] at found
    cases found
  · rfl

/-- The pieces of a text are the only cut of it. -/
theorem pieces_eq_iff {cs : List Char} {ps : List Piece} : pieces cs = ps ↔ Cut cs ps := by
  constructor
  · rintro rfl
    fun_induction pieces cs with
    | case1 cs body rest found _ ih =>
      obtain ⟨fits, rfl⟩ := placeholder?_eq_some.1 found
      exact .placeholder fits ih
    | case2 => exact .nil
    | case3 c rest missed ih =>
      refine .plain (fun body back fits same => ?_) ih
      rw [placeholder?_eq_some.2 ⟨fits, same⟩] at missed
      cases missed
  · intro cut
    induction cut with
    | nil => rw [pieces]; rfl
    | placeholder fits _ ih => rw [pieces_of_some (placeholder?_written fits _), ih]
    | @plain c rest ps none _ ih =>
      have missed : placeholder? (c :: rest) = .none := by
        refine Option.eq_none_iff_forall_ne_some.2 fun found here => ?_
        obtain ⟨body, back⟩ := found
        obtain ⟨fits, same⟩ := placeholder?_eq_some.1 here
        exact none body back fits same
      rw [pieces_of_none missed, ih]

/-- A text is one placeholder when its cut is. -/
theorem cut_singleton_iff {cs body : List Char} :
    Cut cs [.placeholder body] ↔ IsBody body ∧ cs = written body := by
  constructor
  · rintro (_ | ⟨fits, ends⟩)
    cases ends
    exact ⟨fits, List.append_nil _⟩
  · rintro ⟨fits, rfl⟩
    have cut := Cut.placeholder fits .nil
    rwa [List.append_nil] at cut

/-- What a scan cuts out stands in the text. -/
theorem Cut.standsIn {cs body : List Char} {ps : List Piece} (cut : Cut cs ps)
    (member : .placeholder body ∈ ps) : StandsIn body cs := by
  induction cut with
  | nil => cases member
  | @placeholder body' rest ps fits _ ih =>
    rcases List.mem_cons.1 member with same | member
    · cases same
      exact ⟨fits, [], rest, rfl⟩
    · obtain ⟨fits, front, back, same⟩ := ih member
      exact ⟨fits, written body' ++ front, back, by simp [same]⟩
  | @plain c rest ps _ _ ih =>
    rcases List.mem_cons.1 member with same | member
    · cases same
    · obtain ⟨fits, front, back, same⟩ := ih member
      exact ⟨fits, c :: front, back, by simp [same]⟩

/-! ## Values -/

/-- A placeholder stands for what is found at its path. Where nothing is found, and where its body
is no path, it stands for null. -/
inductive StandsFor (scope : Scope) (body : List Char) : Json → Prop
  | found {path : List Segment} {value : Json} (read : Path.read (String.ofList body) = .ok path)
      (found : Path.lookup scope path = some value) : StandsFor scope body value
  | missing {path : List Segment} (read : Path.read (String.ofList body) = .ok path)
      (missing : Path.lookup scope path = none) : StandsFor scope body .null
  | malformed {fault : Fault} (read : Path.read (String.ofList body) = .error fault) :
      StandsFor scope body .null

/-- How a value is written into a text: a text as it is, null as nothing, and anything else in
the notation of JSON. -/
inductive Writes : Json → String → Prop
  | str (text : String) : Writes (.str text) text
  | null : Writes .null ""
  | other {value : Json} (noText : ∀ text, value ≠ .str text) (something : value ≠ .null) :
      Writes value value.compact

/-- The pieces of a text are put together again, each placeholder as the text of its value. -/
inductive Fills (scope : Scope) : List Piece → List Char → Prop
  | nil : Fills scope [] []
  | plain {c : Char} {ps : List Piece} {cs : List Char} :
      Fills scope ps cs → Fills scope (.plain c :: ps) (c :: cs)
  | placeholder {body : List Char} {value : Json} {text : String} {ps : List Piece}
      {cs : List Char} (stands : StandsFor scope body value)
      (writes : Writes value text) :
      Fills scope ps cs → Fills scope (.placeholder body :: ps) (text.toList ++ cs)

/-- What a text becomes: the value of the placeholder that it is, or itself with the placeholders
in it filled. -/
inductive Comes (scope : Scope) (text : String) : Json → Prop
  | whole {body : List Char} {value : Json} (fits : IsBody body)
      (whole : text.toList = written body) (stands : StandsFor scope body value) :
      Comes scope text value
  | mixed {ps : List Piece} {filled : String}
      (mixed : ∀ body, IsBody body → text.toList ≠ written body) (cut : Cut text.toList ps)
      (fills : Fills scope ps filled.toList) : Comes scope text (.str filled)

variable {scope : Scope}

theorem valueOf_eq_iff {body : List Char} {value : Json} :
    valueOf scope body = value ↔ StandsFor scope body value := by
  rw [valueOf, Path.resolve]
  constructor
  · rintro rfl
    cases read : Path.read (String.ofList body) with
    | error fault => exact .malformed read
    | ok path =>
      rw [Except.map]
      cases found : Path.lookup scope path with
      | none => exact .missing read found
      | some value => exact .found read found
  · rintro (⟨read, found⟩ | ⟨read, missing⟩ | read)
    · rw [read, Except.map, found]
    · rw [read, Except.map, missing]
    · rw [read, Except.map]

theorem textOf_eq_iff {value : Json} {text : String} : textOf value = text ↔ Writes value text := by
  constructor
  · rintro rfl
    cases value with
    | str text => exact .str text
    | null => exact .null
    | bool | int | float | arr | obj => exact .other nofun nofun
  · rintro (_ | _ | ⟨noText, something⟩)
    · rfl
    · rfl
    · cases value with
      | str text => exact absurd rfl (noText text)
      | null => exact absurd rfl something
      | bool | int | float | arr | obj => rfl

theorem fills_iff {ps : List Piece} {cs : List Char} :
    Fills scope ps cs ↔ cs = ps.flatMap (fun p => (p.fill scope).toList) := by
  induction ps generalizing cs with
  | nil => exact ⟨fun h => by cases h; rfl, fun h => h ▸ .nil⟩
  | cons p ps ih =>
    rw [List.flatMap_cons]
    constructor
    · rintro (_ | h | ⟨stands, writes, h⟩)
      · rw [← ih.1 h]
        simp [Piece.fill]
      · rw [← ih.1 h, Piece.fill, valueOf_eq_iff.2 stands, textOf_eq_iff.2 writes]
    · rintro rfl
      cases p with
      | plain c =>
        have filled := Fills.plain (c := c) (ih.2 rfl)
        simpa [Piece.fill] using filled
      | placeholder body =>
        exact .placeholder (valueOf_eq_iff.1 rfl) (textOf_eq_iff.1 rfl) (ih.2 rfl)

theorem resolveText_whole {text : String} {body : List Char} (fits : IsBody body)
    (whole : text.toList = written body) : resolveText scope text = valueOf scope body := by
  rw [resolveText, pieces_eq_iff.2 (cut_singleton_iff.2 ⟨fits, whole⟩)]

theorem resolveText_mixed {text : String}
    (mixed : ∀ body, IsBody body → text.toList ≠ written body) :
    resolveText scope text =
      .str (String.join ((pieces text.toList).map (Piece.fill scope))) := by
  unfold resolveText
  split
  · next body alone =>
    obtain ⟨fits, whole⟩ := cut_singleton_iff.1 (pieces_eq_iff.1 alone)
    exact absurd whole (mixed body fits)
  · rfl

theorem resolveText_eq_iff {text : String} {value : Json} :
    resolveText scope text = value ↔ Comes scope text value := by
  have filled (ps : List Piece) : Fills scope ps (String.join (ps.map (Piece.fill scope))).toList := by
    rw [fills_iff, String.toList_join, List.flatMap_map]
  constructor
  · rintro rfl
    by_cases whole : ∃ body, IsBody body ∧ text.toList = written body
    · obtain ⟨body, fits, whole⟩ := whole
      rw [resolveText_whole fits whole]
      exact .whole fits whole (valueOf_eq_iff.1 rfl)
    · have mixed : ∀ body, IsBody body → text.toList ≠ written body :=
        fun body fits same => whole ⟨body, fits, same⟩
      rw [resolveText_mixed mixed]
      exact .mixed mixed (pieces_eq_iff.1 rfl) (filled _)
  · rintro (⟨fits, whole, stands⟩ | ⟨mixed, cut, fills⟩)
    · rw [resolveText_whole fits whole, valueOf_eq_iff.2 stands]
    · rw [resolveText_mixed mixed, pieces_eq_iff.2 cut]
      congr 1
      exact String.toList_injective ((fills_iff.1 (filled _)).trans (fills_iff.1 fills).symm)

theorem resolveItems_eq_map (items : List Json) :
    resolveItems scope items = items.map (resolve scope) := by
  induction items with
  | nil => rfl
  | cons item rest ih => rw [resolveItems, ih, List.map_cons]

theorem resolveMembers_eq_map (members : List (String × Json)) :
    resolveMembers scope members = Table.mapValues (resolve scope) members := by
  induction members with
  | nil => rfl
  | cons entry rest ih => rw [resolveMembers, ih, Table.mapValues, Table.mapValues, List.map_cons]

/-- Every text of a value becomes what one scan of it says. Whatever is no text stays, an array
keeps its items in order and an object its keys, and a value stays as it is when no placeholder
stands in any text of it. -/
theorem resolve_scans (scope : Scope) :
    (∀ text value, resolve scope (.str text) = value ↔ Comes scope text value) ∧
      (∀ items, resolve scope (.arr items) = .arr (items.map (resolve scope))) ∧
      (∀ members, resolve scope (.obj members) = .obj (Table.mapValues (resolve scope) members)) ∧
      (resolve scope .null = .null ∧ (∀ b, resolve scope (.bool b) = .bool b) ∧
        (∀ n, resolve scope (.int n) = .int n) ∧ ∀ x, resolve scope (.float x) = .float x) ∧
      ∀ value, (∀ text, Contains text value → ∀ body, ¬StandsIn body text.toList) →
        resolve scope value = value := by
  refine ⟨fun text value => ?_, fun items => ?_, fun members => ?_, ?_, fun value bare => ?_⟩
  · rw [resolve, resolveText_eq_iff]
  · rw [resolve, resolveItems_eq_map]
  · rw [resolve, resolveMembers_eq_map]
  · exact ⟨by rw [resolve], fun _ => by rw [resolve], fun _ => by rw [resolve],
      fun _ => by rw [resolve]⟩
  · refine resolve_of_plain value (fun body held => ?_) scope
    obtain ⟨text, contained, member⟩ := held
    exact bare text contained body ((pieces_eq_iff.1 rfl).standsIn member)

/-- What a placeholder brings into a text stays there, even if it looks like a placeholder. -/
theorem resolve_scans_once :
    let scope : Scope := ⟨[("a", .str "$\x7bb\x7d"), ("b", .str "x")], []⟩
    let bare : Json := .obj [("$\x7ba\x7d", .arr [.str "x", .int 1])]
    resolve scope (.str "<$\x7ba\x7d>") = .str "<$\x7bb\x7d>" ∧
      (∀ text, Contains text bare → ∀ body, ¬StandsIn body text.toList) ∧
        resolve scope bare = bare := by
  intro scope bare
  have none : ∀ text, Contains text bare → ∀ body, ¬StandsIn body text.toList := by
    intro text contained body stands
    have listed : text ∈ texts bare := (mem_texts bare).2 contained
    have only : texts bare = ["x"] := by decide
    rw [only, List.mem_singleton] at listed
    obtain ⟨-, front, back, same⟩ := stands
    have dollar : '$' ∈ text.toList := by simp [same, written]
    rw [listed] at dollar
    exact absurd dollar (by decide)
  have cut : Cut "<$\x7ba\x7d>".toList [.plain '<', .placeholder ['a'], .plain '>'] :=
    pieces_eq_iff.1 (by cbv)
  have mixed : ∀ body, IsBody body → "<$\x7ba\x7d>".toList ≠ written body := by
    intro body _ same
    have first : "<$\x7ba\x7d>".toList.head? = some '<' := by decide
    rw [same] at first
    simp [written] at first
  have read : Path.read (String.ofList ['a']) = .ok [.field "a"] := by cbv
  have fills : Fills scope [.plain '<', .placeholder ['a'], .plain '>']
      ('<' :: ("$\x7bb\x7d".toList ++ ['>'])) :=
    .plain (.placeholder (.found read rfl) (.str _) (.plain .nil))
  have filled : '<' :: ("$\x7bb\x7d".toList ++ ['>']) = "<$\x7bb\x7d>".toList := by decide
  rw [filled] at fills
  obtain ⟨comes, -, -, -, stays⟩ := resolve_scans scope
  exact ⟨(comes _ _).2 (.mixed mixed cut fills), none, stays bare none⟩

end Stepwise.Template

import Stepwise.Condition.Evaluator
import Stepwise.Proofs.Table

/-!
# What an evaluator remembers

Of all texts that it was ever asked about, an evaluator remembers those that are conditions, each as
it is read, and no others: `Remembers`. One question keeps to this (`Remembers.evaluate`), and so
does any number of them (`Remembers.answerAll`). Hence what an evaluator remembers never shows in
what it answers (`answers_transparent`), in whatever scopes it is asked about the same text again.
-/

namespace Stepwise.Condition

/-- A text that may be a condition, and the scope to evaluate it in. -/
structure Question where
  scope : Scope
  text : String

namespace Evaluator

/-- Answers some questions one after another, and remembers what was read on the way. -/
def answerAll (evaluator : Evaluator) : List Question → List (Except Fault Bool) × Evaluator
  | [] => ([], evaluator)
  | question :: rest =>
    let (answer, evaluator) := evaluator.evaluate question.scope question.text
    let (answers, evaluator) := evaluator.answerAll rest
    (answer :: answers, evaluator)

/-- The evaluator was asked about these texts, and remembers the conditions among them. -/
structure Remembers (evaluator : Evaluator) (asked : List String) : Prop where
  sorted : Table.Sorted evaluator.known
  known : ∀ text e, evaluator.known.find? text = some e ↔ text ∈ asked ∧ compile text = .ok e

variable {evaluator : Evaluator} {asked : List String}

theorem remembers_empty : Remembers empty [] := by
  refine ⟨List.Pairwise.nil, fun text e => ?_⟩
  simp [empty]

theorem Remembers.mem_known_iff (remembers : evaluator.Remembers asked) {text : String} {e : Expr} :
    (text, e) ∈ evaluator.known ↔ text ∈ asked ∧ compile text = .ok e := by
  rw [← Table.find?_eq_some_iff remembers.sorted.nodup_keys]
  exact remembers.known text e

/-- The answer is that of reading the text anew. -/
theorem Remembers.answer_eq (remembers : evaluator.Remembers asked) (scope : Scope)
    (text : String) :
    (evaluator.evaluate scope text).1 = Condition.evaluate scope text := by
  rw [evaluate, Condition.evaluate]
  cases found : evaluator.known.find? text with
  | some e =>
    have read := ((remembers.known text e).1 found).2
    rw [read]
    rfl
  | none => cases compile text <;> rfl

/-- A text is remembered from the first question about it on, if it is a condition. -/
theorem Remembers.evaluate (remembers : evaluator.Remembers asked) (scope : Scope) (text : String) :
    (evaluator.evaluate scope text).2.Remembers (asked ++ [text]) := by
  rw [Evaluator.evaluate]
  cases found : evaluator.known.find? text with
  | some e =>
    -- The text was asked about before.
    have old := ((remembers.known text e).1 found).1
    refine ⟨remembers.sorted, fun other e => ?_⟩
    rw [remembers.known, List.mem_append, List.mem_singleton]
    have same : other ∈ asked ∨ other = text ↔ other ∈ asked :=
      or_iff_left_of_imp fun same => same ▸ old
    rw [same]
  | none =>
    cases read : compile text with
    | ok e =>
      refine ⟨remembers.sorted.insert text e, fun other e' => ?_⟩
      rw [Table.find?_insert, List.mem_append, List.mem_singleton]
      by_cases same : text = other
      · subst same
        simp [read]
      · simp [same, Ne.symm same, remembers.known]
    | error fault =>
      refine ⟨remembers.sorted, fun other e => ?_⟩
      rw [remembers.known, List.mem_append, List.mem_singleton]
      by_cases same : other = text
      · subst same
        simp [read]
      · simp [same]

/-- Any number of questions are answered as if each were the first. -/
theorem Remembers.answerAll (remembers : evaluator.Remembers asked) (questions : List Question) :
    (evaluator.answerAll questions).1 =
        questions.map (fun question => Condition.evaluate question.scope question.text) ∧
      (evaluator.answerAll questions).2.Remembers (asked ++ questions.map Question.text) := by
  induction questions generalizing evaluator asked with
  | nil =>
    rw [List.map_nil, List.map_nil, List.append_nil]
    exact ⟨rfl, remembers⟩
  | cons question rest ih =>
    obtain ⟨answers, after⟩ := ih (remembers.evaluate question.scope question.text)
    rw [List.append_assoc] at after
    refine ⟨?_, after⟩
    rw [List.map_cons, ← answers, ← remembers.answer_eq]
    rfl

/-- Every question is answered as by an evaluator that remembers nothing. After any number of them,
what is remembered are the texts asked about that are conditions, each as it is read. -/
theorem answers_transparent (questions : List Question) :
    (empty.answerAll questions).1 =
        questions.map (fun question => (empty.evaluate question.scope question.text).1) ∧
      ∀ (n : Nat) (text : String) (e : Expr),
        (text, e) ∈ (empty.answerAll (questions.take n)).2.known ↔
          text ∈ (questions.take n).map Question.text ∧ compile text = .ok e := by
  refine ⟨?_, fun n text e => ?_⟩
  · rw [(remembers_empty.answerAll questions).1]
    refine List.map_congr_left fun question _ => ?_
    exact (remembers_empty.answer_eq question.scope question.text).symm
  · have after := (remembers_empty.answerAll (questions.take n)).2
    rw [List.nil_append] at after
    exact after.mem_known_iff

end Evaluator

end Stepwise.Condition

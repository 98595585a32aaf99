import Mathlib.Data.List.Permutation
import Stepwise.Proofs.Plan.Predecessors
import Stepwise.Proofs.Validation

/-!
# Agreement of plans

A plan tells twice what comes before what: by its stages, and by its graph of predecessors. The
stages come from the blocks of a tree alone, and so does a predecessor that a node has by its
place, which stands in an earlier stage. A reference of a task can be to any node, though. The two
halves of a plan agree if and only if each reference is to a node that comes before the task by the
order of the steps, or stands beside it in an earlier stage (`agrees_iff`). A tree with a reference
to a later step is valid, and its plan contradicts itself (`not_agrees_ahead`).
-/

namespace Stepwise

namespace Node

/-- The lowest node above two nodes of a tree is neither of them, and it does not run its children
one after another. -/
inductive SideBySide (root u v : Node) : Prop
  | intro {n : Node} (inside : n ∈ root.preorder) (beside : n.kind.inTurn = false) {i j : Nat}
      (apart : i ≠ j) (boundI : i < n.children.length) (boundJ : j < n.children.length)
      (left : u ∈ n.children[i].preorder) (right : v ∈ n.children[j].preorder)

variable {root n u v : Node}

theorem Precedes.mono (h : n.Precedes u v) (inside : n ∈ root.preorder) : root.Precedes u v := by
  cases h with
  | inTurn within turn less bound left right =>
    exact .inTurn (mem_preorder_trans inside within) turn less bound left right
  | below within condition branch under =>
    exact .below (mem_preorder_trans inside within) condition branch under

theorem SideBySide.mono (h : n.SideBySide u v) (inside : n ∈ root.preorder) :
    root.SideBySide u v := by
  obtain ⟨within, beside, apart, boundI, boundJ, left, right⟩ := h
  exact ⟨mem_preorder_trans inside within, beside, apart, boundI, boundJ, left, right⟩

/-- A node that does or decides something comes before whatever is below it. -/
theorem Leafy.precedes_of_below {child : Node} (leafy : root.Leafy) (acts : root.kind.acts = true)
    (member : child ∈ root.children) (under : v ∈ child.preorder) : root.Precedes root v := by
  have busy := leafy.works_eq_false member
  cases kind : root.kind with
  | condition text => exact .below root.mem_preorder_self kind member under
  | task spec => rw [kind] at busy; cases busy
  | wait spec => rw [kind] at busy; cases busy
  | sequence => rw [kind] at acts; cases acts
  | loop spec => rw [kind] at acts; cases acts
  | parallel spec => rw [kind] at acts; cases acts

/-- Of two nodes that do or decide something one comes before the other, or they stand side by
side. -/
theorem Leafy.order_cases (leafy : root.Leafy) (hu : u ∈ root.preorder) (hv : v ∈ root.preorder)
    (actsU : u.kind.acts = true) (actsV : v.kind.acts = true) (other : u ≠ v) :
    root.Precedes u v ∨ root.Precedes v u ∨ root.SideBySide u v := by
  induction root using Node.induction with
  | step root ih =>
    rcases mem_preorder.1 hu with rfl | ⟨a, memberA, underA⟩
    · rcases mem_preorder.1 hv with rfl | ⟨b, memberB, underB⟩
      · exact absurd rfl other
      · exact .inl (leafy.precedes_of_below actsU memberB underB)
    · rcases mem_preorder.1 hv with rfl | ⟨b, memberB, underB⟩
      · exact .inr (.inl (leafy.precedes_of_below actsV memberA underA))
      · obtain ⟨i, boundI, rfl⟩ := List.getElem_of_mem memberA
        obtain ⟨j, boundJ, rfl⟩ := List.getElem_of_mem memberB
        have self := root.mem_preorder_self
        rcases Nat.lt_trichotomy i j with less | rfl | greater
        · cases turn : root.kind.inTurn with
          | true => exact .inl (.inTurn self turn less boundJ underA underB)
          | false => exact .inr (.inr ⟨self, turn, Nat.ne_of_lt less, boundI, boundJ, underA, underB⟩)
        · have part := mem_preorder_of_child memberA (mem_preorder_self _)
          exact (ih _ memberA (leafy.mono part) underA underB).imp (·.mono part)
            (·.imp (·.mono part) (·.mono part))
        · cases turn : root.kind.inTurn with
          | true => exact .inr (.inl (.inTurn self turn greater boundI underB underA))
          | false =>
            exact .inr (.inr ⟨self, turn, Nat.ne_of_gt greater, boundI, boundJ, underA, underB⟩)

theorem eq_of_id (distinct : root.ids.Nodup) (hu : u ∈ root.preorder) (hv : v ∈ root.preorder)
    (same : u.id = v.id) : u = v := List.inj_on_of_nodup_map distinct hu hv same

/-- What a node comes after by its place comes before it by the order of the steps, if it does or
decides something. -/
theorem Follows.precedes (distinct : root.ids.Nodup) (leafy : root.Leafy) {m : Node}
    (h : root.Follows m u.id) (hu : u ∈ root.preorder) (acts : u.kind.acts = true) :
    root.Precedes u m := by
  generalize name : u.id = id at h
  cases h with
  | @sibling n before front back inside turn split =>
    have first : front.length + 1 < n.children.length := by
      rw [split]
      simp
    have left : n.children[front.length] = before := by simp [split]
    have right : n.children[front.length + 1] = m := by simp [split]
    have within : before ∈ root.preorder :=
      mem_preorder_child inside (left ▸ List.getElem_mem _)
    rw [eq_of_id distinct hu within name]
    refine .inTurn inside turn (Nat.lt_succ_self _) first ?_ ?_
    · rw [left]
      exact before.mem_preorder_self
    · rw [right]
      exact m.mem_preorder_self
  | @parent n inside member =>
    rw [eq_of_id distinct hu inside name] at acts ⊢
    exact ((leafy.mono inside).precedes_of_below acts member m.mem_preorder_self).mono inside

end Node

/-- A node that refers to others is a task. -/
theorem Kind.acts_of_references {kind : Kind} {id : String} (h : id ∈ kind.references) :
    kind.acts = true := by
  cases kind with
  | task spec => rfl
  | sequence | parallel spec | condition text | loop spec | wait spec => cases h

namespace Checker

variable {checker : Checker} {root : Node}

theorem leafy_of_isValid (valid : (checker.validate root).isValid = true) : root.Leafy := by
  intro n inside works
  have fits := fits_of_isValid valid inside
  unfold Fits at fits
  split at fits
  · exact fits.leaf
  · next kind => rw [kind] at works; cases works
  · next kind => rw [kind] at works; cases works
  · next kind => rw [kind] at works; cases works
  · next kind => rw [kind] at works; cases works
  · exact fits.leaf

/-- No node of a valid tree refers to itself. -/
theorem notMem_references_of_isValid (valid : (checker.validate root).isValid = true) {n : Node}
    (inside : n ∈ root.preorder) : n.id ∉ n.kind.references := by
  have fits := fits_of_isValid valid inside
  unfold Fits at fits
  intro own
  cases kind : n.kind with
  | task spec =>
    rw [kind] at own
    simp only [kind] at fits
    exact fits.apart (Template.mem_references.1 own)
  | sequence | parallel spec | condition text | loop spec | wait spec => rw [kind] at own; cases own

end Checker

namespace Report

/-- The two halves of a plan agree: what the graph lists for a node stands in an earlier stage, if
both have a stage. -/
def Agrees (report : Report) : Prop :=
  ∀ id ids, report.predecessors.find? id = some ids → ∀ p ∈ ids, ∀ i j,
    Plan.At report.stages i p → Plan.At report.stages j id → i < j

end Report

namespace Plan

variable {checker : Checker} {root n m : Node}

/-- What a node refers to is among its predecessors. -/
theorem exists_predecessors (distinct : root.ids.Nodup) (hn : n ∈ root.preorder)
    (hm : m ∈ root.preorder) (refers : m.id ∈ n.kind.references) (other : m.id ≠ n.id) :
    ∃ ids, (predecessors root).find? n.id = some ids ∧ m.id ∈ ids := by
  have known : m.id ∈ root.ids := Node.mem_ids.2 ⟨m, hm, rfl⟩
  have key : n.id ∈ (predecessorList root.ids none root).map Prod.fst := by
    rw [keys_predecessorList]
    exact Node.mem_ids.2 ⟨n, hn, rfl⟩
  obtain ⟨⟨id, ids⟩, entry, rfl : id = n.id⟩ := List.mem_map.1 key
  refine ⟨ids, (find?_predecessors distinct).2 entry, ?_⟩
  rcases mem_predecessorList entry with own | ⟨k, inside, before, -, own⟩
  · obtain ⟨name, rfl⟩ := Prod.mk.inj own
    cases Node.eq_of_id distinct hn root.mem_preorder_self name
    exact mem_predecessorsOf.2 (.inr ⟨refers, other, known⟩)
  · obtain ⟨name, rfl⟩ := Prod.mk.inj own
    cases Node.eq_of_id distinct hn inside name
    exact mem_predecessorsOf.2 (.inr ⟨refers, other, known⟩)

/-- A predecessor is there by the place of its node, or because the node refers to it. -/
theorem predecessor_cases (distinct : root.ids.Nodup) {id p : String} {ids : List String}
    (found : (predecessors root).find? id = some ids) (member : p ∈ ids) :
    ∃ n ∈ root.preorder, n.id = id ∧ (root.Follows n p ∨ p ∈ n.kind.references) := by
  rcases mem_predecessorList ((find?_predecessors distinct).1 found) with
    own | ⟨n, inside, before, follows, own⟩
  · obtain ⟨rfl, rfl⟩ := Prod.mk.inj own
    refine ⟨root, root.mem_preorder_self, rfl, .inr ?_⟩
    exact ((mem_predecessorsOf.1 member).resolve_left nofun).1
  · obtain ⟨rfl, rfl⟩ := Prod.mk.inj own
    refine ⟨n, inside, rfl, ?_⟩
    rcases mem_predecessorsOf.1 member with same | ⟨refers, -⟩
    · cases same
      exact .inl follows
    · exact .inr refers

end Plan

namespace Checker

open Plan

/-- The halves of the plan of a valid tree agree if and only if whatever a task refers to, and has
a stage, either comes before the task by the order of the steps, or stands beside it and has an
earlier stage. What a node waits for by its place always has an earlier stage. -/
theorem agrees_iff (checker : Checker) (root : Node)
    (valid : (checker.validate root).isValid = true) :
    (checker.validate root).Agrees ↔
      ∀ n ∈ root.preorder, ∀ m ∈ root.preorder, m.kind.acts = true → m.id ∈ n.kind.references →
        root.Precedes m n ∨ root.SideBySide m n ∧
          ∀ i j, At (stages root) i m.id → At (stages root) j n.id → i < j := by
  have distinct := distinct_of_isValid valid
  have leafy := leafy_of_isValid valid
  constructor
  · intro agrees n hn m hm acts refers
    have actsN := Kind.acts_of_references refers
    have apart : m ≠ n := fun same => notMem_references_of_isValid valid hn (same ▸ refers)
    have other : m.id ≠ n.id := fun same => apart (Node.eq_of_id distinct hm hn same)
    obtain ⟨ids, found, listed⟩ := exists_predecessors distinct hn hm refers other
    have earlier (i j : Nat) : At (stages root) i m.id → At (stages root) j n.id → i < j :=
      agrees n.id ids found m.id listed i j
    rcases leafy.order_cases hm hn acts actsN apart with before | after | beside
    · exact .inl before
    · -- The task comes first, so its stage is the earlier one as well.
      obtain ⟨i, stageM⟩ := exists_isStageOf distinct leafy hm acts
      obtain ⟨j, stageN⟩ := exists_isStageOf distinct leafy hn actsN
      have atM := (stageM i).2 rfl
      have atN := (stageN j).2 rfl
      have later := lt_of_precedes distinct leafy after atN atM
      exact absurd (earlier i j atM atN) (Nat.lt_asymm later)
    · exact .inr ⟨beside, earlier⟩
  · intro forward id ids found p member i j first second
    obtain ⟨n, hn, rfl, reason⟩ := predecessor_cases distinct found member
    obtain ⟨m, hm, acts, rfl⟩ := exists_of_at first
    rcases reason with follows | refers
    · exact lt_of_precedes distinct leafy (follows.precedes distinct leafy hm acts) first second
    · rcases forward n hn m hm acts refers with before | ⟨-, earlier⟩
      · exact lt_of_precedes distinct leafy before first second
      · exact earlier i j first second

/-! ## References to other steps -/

/-- A task with a parameter. -/
def asking (id parameter : String) : Node :=
  .make id (.task ⟨"work", [], [("input", .str parameter)], 0, none, none⟩) []

/-- The second task refers to the first one. -/
def behind : Node := .make "both" .sequence [chore "a", asking "b" "$\x7bresult.a\x7d"]

/-- The first task refers to the second one. -/
def ahead : Node := .make "both" .sequence [asking "a" "$\x7bresult.b\x7d", chore "b"]

/-- What the checks of these trees are made against. -/
def standard : Checker := ⟨.standard, .unrestricted⟩

/-- A reference to an earlier step fits the order of the steps. -/
theorem agrees_iff_behind : (standard.validate behind).isValid = true ∧
    (asking "b" "$\x7bresult.a\x7d").kind.references = ["a"] ∧
    (standard.validate behind).Agrees := by
  have valid : (standard.validate behind).isValid = true := by cbv
  have references : (asking "b" "$\x7bresult.a\x7d").kind.references = ["a"] := by cbv
  have list : behind.preorder = [behind, chore "a", asking "b" "$\x7bresult.a\x7d"] := rfl
  refine ⟨valid, references, (agrees_iff standard behind valid).2 fun n hn m hm acts refers => ?_⟩
  rw [list] at hn hm
  simp only [List.mem_cons, List.not_mem_nil, or_false] at hn hm
  obtain rfl | rfl | rfl := hn
  · cases refers
  · cases refers
  · rw [references] at refers
    obtain rfl | rfl | rfl := hm
    · cases acts
    · exact .inl (.inTurn (i := 0) (j := 1) behind.mem_preorder_self rfl Nat.zero_lt_one (by decide)
        (Node.mem_preorder_self _) (Node.mem_preorder_self _))
    · exact absurd (List.mem_singleton.1 refers) (by decide)

/-- A tree with a reference to a later step is valid, and its plan has that step both before and
after the one that refers to it. -/
theorem not_agrees_ahead : (standard.validate ahead).isValid = true ∧
    (standard.validate ahead).predecessors.find? "a" = some ["both", "b"] ∧
    (standard.validate ahead).predecessors.find? "b" = some ["a"] ∧
    (standard.validate ahead).stages = [["a"], ["b"]] ∧ ¬(standard.validate ahead).Agrees := by
  have valid : (standard.validate ahead).isValid = true := by cbv
  have first : (standard.validate ahead).predecessors.find? "a" = some ["both", "b"] := by cbv
  have second : (standard.validate ahead).predecessors.find? "b" = some ["a"] := by cbv
  refine ⟨valid, first, second, rfl, fun agrees => ?_⟩
  have less := agrees "a" ["both", "b"] first "b" (by decide) 1 0
    ⟨["b"], rfl, List.mem_cons_self⟩ ⟨["a"], rfl, List.mem_cons_self⟩
  exact absurd less (by decide)

end Checker

end Stepwise

import Mathlib.Algebra.GroupWithZero.Nat
import Stepwise.Validation
import Stepwise.Proofs.Duration
import Stepwise.Proofs.Node.Tree

/-!
# Estimates without a greatest duration

`exactNanos` is the estimate of a tree in unbounded nanoseconds. The estimate that a checker
reports is cut off at every node, and still it is the exact one cut off once, at the end. `inWords`
computes an estimate as durations are held, in words and from left to right; it comes to the same,
and no step of it overflows.
-/

namespace Stepwise

open Duration (Words)

namespace Plan

/-! ## Exact estimates -/

mutual

/-- The nanoseconds that a tree may take, in which a task without a timeout counts as `task`. -/
def exactNanos (task : Duration) (node : Node) : Nat :=
  match node with
  | ⟨_, kind, children, _, _⟩ =>
    match kind with
    | .task spec => (spec.timeout.getD task).nanos
    | .wait spec => (spec.timeout.getD standardWaitTimeout).nanos
    | .sequence => (exactNanosAll task children).sum
    | .loop spec =>
      (exactNanosAll task children).sum * min (spec.maxIterations.elim 100 UInt64.toNat) 4294967295
    | .parallel _ => (exactNanosAll task children).foldr max 0
    | .condition _ => (exactNanosAll task children).foldr max 0

/-- The exact estimates of some trees. -/
def exactNanosAll (task : Duration) : List Node → List Nat
  | [] => []
  | node :: rest => exactNanos task node :: exactNanosAll task rest

end

theorem estimatedRounds_eq (spec : LoopSpec) :
    estimatedRounds spec = min (spec.maxIterations.elim 100 UInt64.toNat) 4294967295 := by
  unfold estimatedRounds
  cases spec.maxIterations <;> rfl

variable {task : Duration} {nodes : List Node}

/-- Trees in turn take the sum of what each of them takes. -/
theorem estimateSum_eq
    (same : ∀ node ∈ nodes, estimate task node = .ofNanos (exactNanos task node)) :
    estimateSum task nodes = .ofNanos (exactNanosAll task nodes).sum := by
  induction nodes with
  | nil => rfl
  | cons node rest ih =>
    rw [List.forall_mem_cons] at same
    rw [estimateSum, exactNanosAll, List.sum_cons, same.1, ih same.2, Duration.add_ofNanos]

/-- Trees side by side take as long as the longest one. -/
theorem estimateLongest_eq
    (same : ∀ node ∈ nodes, estimate task node = .ofNanos (exactNanos task node)) :
    estimateLongest task nodes = .ofNanos ((exactNanosAll task nodes).foldr max 0) := by
  induction nodes with
  | nil => rfl
  | cons node rest ih =>
    rw [List.forall_mem_cons] at same
    rw [estimateLongest, exactNanosAll, List.foldr_cons, same.1, ih same.2, Duration.longer_ofNanos]

/-- The estimate of a tree is the exact one, cut off. -/
theorem estimate_eq (task : Duration) (node : Node) :
    estimate task node = .ofNanos (exactNanos task node) := by
  induction node using Node.induction with
  | step node ih =>
    obtain ⟨id, kind, children, branch, tags⟩ := node
    cases kind with
    | task spec => exact (Duration.ofNanos_nanos _).symm
    | wait spec => exact (Duration.ofNanos_nanos _).symm
    | sequence => exact estimateSum_eq ih
    | parallel spec => exact estimateLongest_eq ih
    | condition text => exact estimateLongest_eq ih
    | loop spec =>
      rw [estimate, exactNanos, estimateSum_eq ih, Duration.scale_ofNanos, estimatedRounds_eq]

/-! ## Estimates in words -/

/-- The rounds of a loop as a word of 32 bits, or the greatest such word. -/
def roundsWord (spec : LoopSpec) : UInt32 :=
  (Duration.word32? (spec.maxIterations.getD standardIterations).toNat).getD 4294967295

/-- The sum of durations, from the first to the last. -/
def sumInWords (times : List Words) : Option Words := times.foldlM Words.add? .zero

/-- The longest of some durations; no time if there is none. -/
def longestInWords : List Words → Words
  | [] => .zero
  | time :: rest => rest.foldl Words.longer time

mutual

/-- The estimate of a tree in words, if nothing overflows that is not guarded. -/
def inWords (task : Words) (node : Node) : Option Words :=
  match node with
  | ⟨_, kind, children, _, _⟩ =>
    match kind with
    | .task spec => some ((spec.timeout.map Words.ofDuration).getD task)
    | .wait spec => some (.ofDuration (spec.timeout.getD standardWaitTimeout))
    | .sequence => (inWordsAll task children).bind sumInWords
    | .loop spec => do
      let body ← (inWordsAll task children).bind sumInWords
      body.scale? (roundsWord spec)
    | .parallel _ => (inWordsAll task children).map longestInWords
    | .condition _ => (inWordsAll task children).map longestInWords

/-- The estimates of some trees in words, if none of them overflows. -/
def inWordsAll (task : Words) : List Node → Option (List Words)
  | [] => some []
  | node :: rest => do
    let time ← inWords task node
    let times ← inWordsAll task rest
    return time :: times

end

theorem toNat_roundsWord (spec : LoopSpec) : (roundsWord spec).toNat = estimatedRounds spec := by
  unfold roundsWord estimatedRounds Duration.word32?
  split
  · next fits =>
    rw [Option.getD_some, UInt32.toNat_ofNat_of_lt' fits]
    omega
  · next more =>
    have greatest : (4294967295 : UInt32).toNat = UInt32.size - 1 := rfl
    rw [Option.getD_none, greatest]
    omega

variable {start : Words} {times : List Words} {lengths : List Nat}

/-- A sum in words, on top of what there is. -/
theorem foldlM_add? (same : times.map Words.toDuration = lengths.map Duration.ofNanos) :
    (times.foldlM Words.add? start).map Words.toDuration =
      some (start.toDuration.add (.ofNanos lengths.sum)) := by
  induction times generalizing start lengths with
  | nil =>
    obtain rfl := List.map_eq_nil_iff.1 same.symm
    rw [List.foldlM_nil, List.sum_nil, Duration.add, Duration.nanos_ofNanos, Nat.zero_min,
      Nat.add_zero, Duration.ofNanos_nanos]
    rfl
  | cons time rest ih =>
    obtain ⟨length, others, rfl, hfirst, hrest⟩ := List.map_eq_cons_iff.1 same.symm
    obtain ⟨first, added, value⟩ := Option.map_eq_some_iff.1 (Words.add?_eq start time)
    rw [List.foldlM_cons, added, Option.bind_eq_bind, Option.bind_some, ih hrest.symm, value,
      ← hfirst, List.sum_cons]
    congr 1
    ext
    simp only [Duration.nanos_ofNanos, Duration.nanos_add]
    omega

theorem sumInWords_eq (same : times.map Words.toDuration = lengths.map Duration.ofNanos) :
    (sumInWords times).map Words.toDuration = some (.ofNanos lengths.sum) := by
  rw [sumInWords, foldlM_add? same, Words.toDuration_zero, Duration.zero_add]

/-- The longest one in words, or what there is. -/
theorem foldl_longer (same : times.map Words.toDuration = lengths.map Duration.ofNanos) :
    (times.foldl Words.longer start).toDuration =
      start.toDuration.longer (.ofNanos (lengths.foldr max 0)) := by
  induction times generalizing start lengths with
  | nil =>
    obtain rfl := List.map_eq_nil_iff.1 same.symm
    ext
    simp [Duration.nanos_longer, Duration.nanos_ofNanos]
  | cons time rest ih =>
    obtain ⟨length, others, rfl, hfirst, hrest⟩ := List.map_eq_cons_iff.1 same.symm
    rw [List.foldl_cons, ih hrest.symm, Words.toDuration_longer, ← hfirst, List.foldr_cons]
    ext
    simp only [Duration.nanos_longer, Duration.nanos_ofNanos]
    omega

theorem longestInWords_eq (same : times.map Words.toDuration = lengths.map Duration.ofNanos) :
    (longestInWords times).toDuration = .ofNanos (lengths.foldr max 0) := by
  cases times with
  | nil =>
    obtain rfl := List.map_eq_nil_iff.1 same.symm
    rfl
  | cons time rest =>
    obtain ⟨length, others, rfl, hfirst, hrest⟩ := List.map_eq_cons_iff.1 same.symm
    rw [longestInWords, foldl_longer hrest.symm, ← hfirst, Duration.longer_ofNanos,
      List.foldr_cons]

/-- Nothing overflows in any of some trees if nothing does in each of them. -/
theorem exists_inWordsAll
    (same : ∀ node ∈ nodes, (inWords (.ofDuration task) node).map Words.toDuration =
      some (.ofNanos (exactNanos task node))) :
    ∃ times, inWordsAll (.ofDuration task) nodes = some times ∧
      times.map Words.toDuration = (exactNanosAll task nodes).map Duration.ofNanos := by
  induction nodes with
  | nil => exact ⟨[], rfl, rfl⟩
  | cons node rest ih =>
    rw [List.forall_mem_cons] at same
    obtain ⟨time, found, value⟩ := Option.map_eq_some_iff.1 same.1
    obtain ⟨times, others, values⟩ := ih same.2
    refine ⟨time :: times, ?_, ?_⟩
    · rw [inWordsAll, found, others]
      rfl
    · rw [List.map_cons, exactNanosAll, List.map_cons, value, values]

/-- An estimate in words overflows nowhere, and stands for the exact one, cut off. -/
theorem inWords_eq (task : Duration) (node : Node) :
    (inWords (.ofDuration task) node).map Words.toDuration =
      some (.ofNanos (exactNanos task node)) := by
  induction node using Node.induction with
  | step node ih =>
    obtain ⟨times, found, values⟩ := exists_inWordsAll ih
    obtain ⟨id, kind, children, branch, tags⟩ := node
    dsimp only at found values
    cases kind with
    | task spec =>
      rw [inWords, exactNanos, Option.map_some, Duration.ofNanos_nanos]
      cases spec.timeout <;> simp
    | wait spec =>
      rw [inWords, exactNanos, Option.map_some, Duration.ofNanos_nanos, Words.toDuration_ofDuration]
    | sequence =>
      rw [inWords, exactNanos, found, Option.bind_some, sumInWords_eq values]
    | parallel spec =>
      rw [inWords, exactNanos, found, Option.map_some, Option.map_some, longestInWords_eq values]
    | condition text =>
      rw [inWords, exactNanos, found, Option.map_some, Option.map_some, longestInWords_eq values]
    | loop spec =>
      obtain ⟨body, summed, value⟩ := Option.map_eq_some_iff.1 (sumInWords_eq values)
      rw [inWords, exactNanos, found, Option.bind_some, summed, Option.bind_eq_bind,
        Option.bind_some, Words.scale?_eq, value, Duration.scale_ofNanos, toNat_roundsWord,
        estimatedRounds_eq]

end Plan

/-- The estimate that a checker reports is the exact one, cut off once at the greatest duration.
Computed in words it comes to the same, and nothing overflows. -/
theorem Checker.estimate_cut_once (checker : Checker) (root : Node) :
    (checker.validate root).estimate.nanos =
        min (Plan.exactNanos checker.limits.taskEstimate root) Duration.greatest.nanos ∧
      (Plan.inWords (.ofDuration checker.limits.taskEstimate) root).map Words.toDuration =
        some (checker.validate root).estimate := by
  have cut := Plan.estimate_eq checker.limits.taskEstimate root
  refine ⟨?_, ?_⟩
  · exact congrArg Duration.nanos cut
  · rw [Plan.inWords_eq, ← cut]
    rfl

end Stepwise

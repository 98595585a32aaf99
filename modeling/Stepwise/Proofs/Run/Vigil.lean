import Mathlib.Algebra.Order.Floor.Div
import Stepwise.Proofs.Condition.Path
import Stepwise.Proofs.Run.Lasting
import Stepwise.Proofs.Run.Passage

/-!
# Looks at a condition

A wait looks at its condition when it starts, and again whenever an interval has gone by, until the
condition holds or it is given up. `Vigil.Looks` follows the looks of a wait and nothing else, and
`Vigil.Comes` says when a look is taken and what it comes to. `wait_watched` says what becomes of
all waits in a run by the clock whose end the clock can tell, and that each of them ends.
-/

namespace Stepwise.Run

/-- A wait that an engine keeps. -/
structure Vigil where
  engine : Engine
  node : Node
  spec : WaitSpec

namespace Vigil

variable (v : Vigil)

/-- After how much time the wait is given up. -/
def patience : Duration := v.spec.timeout.getD v.engine.defaults.waitTimeout

/-- The milliseconds between two looks. -/
def interval : Nat := (pollInterval v.engine v.spec).ceilMillis

/-- The milliseconds after which the wait is given up. -/
def timeout : Nat := v.patience.ceilMillis

/-- The intervals that begin before the wait is given up. -/
def most : Nat := v.timeout ⌈/⌉ v.interval

/-- The clock can tell when a wait that starts in some state is given up. -/
def Told (s₀ : RunState) : Prop := s₀.now + v.timeout < signedBound * millisPerSecond

/-- When a wait that starts in some state looks after some looks. -/
def instant (s₀ : RunState) (n : Nat) : Nat := s₀.now + min (n * v.interval) v.timeout

/-- The looks at the condition of a wait that starts in some state, with the states in which they
are taken, and what the wait has come to in the last. -/
inductive Looks (s₀ : RunState) : List RunState → RunState × Progress → Prop
  | first : Looks s₀ [s₀.startNode v.node]
      (poll v.engine v.node v.spec (s₀.world.deadline? v.patience) (s₀.startNode v.node))
  | again {looks : List RunState} {s s' : RunState} {deadline : Option Nat} {ticket : Nat}
      (before : Looks s₀ looks (s, .waiting (.polling v.node v.spec deadline ticket s'.now)))
      (aside : Aside v.node.ids s s') :
      Looks s₀ (looks ++ [s']) (poll v.engine v.node v.spec deadline s')

/-- How long a wait naps after a look in vain. -/
def nap (deadline : Option Nat) (s : RunState) : Duration :=
  deadline.elim (pollInterval v.engine v.spec) fun deadline =>
    (pollInterval v.engine v.spec).shorter (.ofNanos (deadline - s.now * nanosPerMilli))

/-- What a wait comes to with a look after some others: the condition holds, or the wait is given
up, or it waits for the next look. -/
inductive Comes (s₀ : RunState) (n : Nat) (look : RunState) : RunState × Progress → Prop
  | met (holds : look.holds v.spec.condition = true) :
      Comes s₀ n look (look, .ended (.ok (.bool true)))
  | missed (fails : look.holds v.spec.condition = false) (late : look.now = s₀.now + v.timeout) :
      Comes s₀ n look (look, .ended (.ok (.bool false)))
  | waits {ticket : Nat} {s : RunState} (fails : look.holds v.spec.condition = false)
      (early : n * v.interval < v.timeout) :
      Comes s₀ n look (s, .waiting (.polling v.node v.spec (s₀.world.deadline? v.patience) ticket
        (v.instant s₀ (n + 1))))

/-- Where a wait stands with its looks: each was taken at its instant, and all before the last were
in vain. -/
structure Stands (s₀ : RunState) (earlier : List RunState) (last : RunState) : Prop where
  times : (earlier ++ [last]).map RunState.now =
    (List.range (earlier.length + 1)).map (v.instant s₀)
  vain : ∀ look ∈ earlier, look.holds v.spec.condition = false
  early : ∀ n < earlier.length, n * v.interval < v.timeout

/-- What has become of a wait with its looks. -/
structure Watched (s₀ : RunState) (p : RunState × Progress) (earlier : List RunState)
    (last : RunState) : Prop where
  /-- A look is taken when the wait starts, whenever an interval has gone by, and at last when the
  wait is given up. -/
  times : (earlier ++ [last]).map RunState.now =
    (List.range (earlier.length + 1)).map (fun n => s₀.now + min (n * v.interval) v.timeout)
  count : (earlier ++ [last]).length ≤ v.most + 1
  vain : ∀ look ∈ earlier, look.holds v.spec.condition = false
  /-- A wait ends with a look. It comes to true if the condition holds then, and to false if the
  wait is given up. -/
  ended : ∀ outcome, p.2 = .ended outcome → p.1.now = last.now ∧
    (outcome = .ok (.bool true) ∧ last.holds v.spec.condition = true ∨
      outcome = .ok (.bool false) ∧ last.holds v.spec.condition = false ∧
        p.1.now = s₀.now + v.timeout ∧ earlier.length = v.most)
  /-- A wait that has not ended waits for its next look. -/
  waits : ∀ activity, p.2 = .waiting activity → last.holds v.spec.condition = false ∧
    earlier.length < v.most ∧ ∀ timer ∈ activity.timers,
      timer.due = s₀.now + min ((earlier.length + 1) * v.interval) v.timeout

variable {v} {s s₀ : RunState} {n : Nat} {earlier looks : List RunState} {last : RunState}

/-- Two looks at a condition are some time apart. -/
theorem interval_pos : 0 < v.interval := by
  refine Nat.pos_of_ne_zero fun none => ?_
  have nothing := ((pollInterval v.engine v.spec).ceilMillis_le_iff 0).1 (Nat.le_of_eq none)
  rw [Nat.zero_mul] at nothing
  exact Nat.not_lt.2 nothing (pollInterval_pos v.engine v.spec)

/-- The next instant comes after an interval, or when the wait is given up. -/
theorem instant_succ (early : n * v.interval < v.timeout) :
    s₀.now + n * v.interval + min v.interval (v.timeout - n * v.interval) =
      v.instant s₀ (n + 1) := by
  rw [instant, Nat.add_one_mul]
  omega

/-- A look in vain that is not the last is followed by a nap. -/
theorem poll_of_unmet {deadline : Option Nat} (live : s.context.cancelled = false)
    (fails : s.holds v.spec.condition = false)
    (early : deadline.any (· ≤ s.now * nanosPerMilli) = false) :
    poll v.engine v.node v.spec deadline s = (s.takeTicket.2, .waiting
      (.polling v.node v.spec deadline s.world.tickets (s.world.wakeAt (v.nap deadline s)))) := by
  unfold poll
  rw [if_neg (ne_true_of_eq_false live), if_neg (ne_true_of_eq_false fails)]
  dsimp only
  rw [if_neg (ne_true_of_eq_false early)]
  unfold nap
  cases deadline with
  | none => rfl
  | some deadline =>
    rw [Option.elim_some]
    rfl

/-- A nap ends after an interval, or when the wait is given up. -/
theorem ceilMillis_nap {start passed : Nat} (now : s.now = start + passed) :
    (v.nap (some (start * nanosPerMilli + v.patience.nanos)) s).ceilMillis =
      min v.interval (v.timeout - passed) := by
  have most : v.patience.nanos - passed * nanosPerMilli ≤ greatestNanos :=
    Nat.le_trans (Nat.sub_le ..) v.patience.nanos_le
  refine eq_of_forall_ge_iff fun time => ?_
  rw [Duration.ceilMillis_le_iff, nap, Option.elim_some, Duration.nanos_shorter,
    Duration.nanos_ofNanos, now, Nat.add_mul, Nat.add_sub_add_left, Nat.min_eq_left most,
    min_le_iff, Nat.sub_le_iff_le_add, ← Nat.add_mul, ← Duration.ceilMillis_le_iff,
    ← Duration.ceilMillis_le_iff, min_le_iff, Nat.sub_le_iff_le_add]
  rfl

/-- What a wait comes to with a look at its instant. -/
theorem comes_poll (told : v.Told s₀) (live : s.context.cancelled = false)
    (now : s.now = v.instant s₀ n) :
    v.Comes s₀ n s (poll v.engine v.node v.spec (s₀.world.deadline? v.patience) s) := by
  have ends : s₀.world.deadline? v.patience =
      some (s₀.now * nanosPerMilli + v.patience.nanos) := World.deadline?_eq told
  have over_iff : (s₀.world.deadline? v.patience).any (· ≤ s.now * nanosPerMilli) = true ↔
      v.timeout ≤ min (n * v.interval) v.timeout := by
    rw [ends, Option.any_some, decide_eq_true_eq, now, instant, Nat.add_mul,
      Nat.add_le_add_iff_left]
    exact (v.patience.ceilMillis_le_iff _).symm
  by_cases holds : s.holds v.spec.condition = true
  · rw [poll, if_neg (ne_true_of_eq_false live), if_pos holds]
    exact .met holds
  have fails : s.holds v.spec.condition = false := eq_false_of_ne_true holds
  by_cases late : (s₀.world.deadline? v.patience).any (· ≤ s.now * nanosPerMilli) = true
  · rw [poll, if_neg (ne_true_of_eq_false live), if_neg holds]
    dsimp only
    rw [if_pos late]
    refine .missed fails ?_
    rw [now, instant, Nat.min_eq_right (Nat.le_trans (over_iff.1 late) (Nat.min_le_left ..))]
  · rw [poll_of_unmet live fails (eq_false_of_ne_true late)]
    have early : n * v.interval < v.timeout :=
      Nat.lt_of_not_le fun all => late (over_iff.2 (Nat.le_min.2 ⟨all, Nat.le_refl _⟩))
    have now : s.now = s₀.now + n * v.interval := by
      rw [now, instant, Nat.min_eq_left (Nat.le_of_lt early)]
    have later : s.now + (v.nap (s₀.world.deadline? v.patience) s).ceilMillis =
        v.instant s₀ (n + 1) := by
      rw [ends, ceilMillis_nap now, now, instant_succ early]
    have told : v.instant s₀ (n + 1) < signedBound * millisPerSecond :=
      Nat.lt_of_le_of_lt (Nat.add_le_add_left (Nat.min_le_right ..) _) told
    have due : s.world.wakeAt (v.nap (s₀.world.deadline? v.patience) s) = v.instant s₀ (n + 1) :=
      (World.wakeAt_eq (later ▸ told)).trans later
    rw [due]
    exact .waits fails early

/-- As long as a run is not cancelled its wait has looked, and stands where its last look left it.
-/
theorem Looks.comes {p : RunState × Progress} (h : v.Looks s₀ looks p) (told : v.Told s₀)
    (live : p.1.context.cancelled = false) :
    ∃ earlier last, looks = earlier ++ [last] ∧ v.Stands s₀ earlier last ∧
      v.Comes s₀ earlier.length last p := by
  induction h with
  | first =>
    have alive : (s₀.startNode v.node).context.cancelled = false :=
      alive_of (fun dead => dead_poll dead _ _) live
    have now : (s₀.startNode v.node).now = v.instant s₀ 0 := by
      rw [instant, Nat.zero_mul, Nat.zero_min]
      rfl
    exact ⟨[], _, rfl, ⟨congrArg ([·]) now, nofun, nofun⟩, comes_poll told alive now⟩
  | @again looks s s' deadline ticket before aside ih =>
    have alive : s'.context.cancelled = false := alive_of (fun dead => dead_poll dead _ _) live
    obtain ⟨earlier, last, rfl, stands, comes⟩ := ih (aside.live alive)
    generalize due : s'.now = time at comes
    cases comes with
    | waits fails early =>
      have length : (earlier ++ [last]).length = earlier.length + 1 := List.length_append
      refine ⟨earlier ++ [last], s', rfl, ⟨?times, ?vain, ?early⟩, ?_⟩
      case times =>
        rw [List.map_append, stands.times, length,
          List.range_succ (n := earlier.length + 1), List.map_append]
        exact congrArg (_ ++ [·]) due
      case vain =>
        intro look member
        rcases List.mem_append.1 member with member | member
        · exact stands.vain look member
        · exact List.mem_singleton.1 member ▸ fails
      case early =>
        intro n fewer
        rcases Nat.lt_or_eq_of_le (Nat.le_of_lt_succ (length ▸ fewer)) with fewer | rfl
        · exact stands.early n fewer
        · exact early
      · rw [length]
        exact comes_poll told alive due

/-- What a wait waits for with its looks is the next look. -/
theorem Looks.polling {activity : Activity} (h : v.Looks s₀ looks (s, .waiting activity)) :
    ∃ deadline ticket due, activity = .polling v.node v.spec deadline ticket due := by
  have next {deadline : Option Nat} {s' : RunState}
      (same : poll v.engine v.node v.spec deadline s' = (s, .waiting activity)) :
      ∃ deadline ticket due, activity = .polling v.node v.spec deadline ticket due := by
    unfold poll at same
    dsimp only at same
    split at same
    · cases same
    · split at same
      · cases same
      · split at same
        · cases same
        · cases same
          exact ⟨_, _, _, rfl⟩
  generalize waits : (s, Progress.waiting activity) = p at h
  cases h with
  | first | again => exact next waits.symm

/-- A wait without a deadline is not given up. -/
theorem Looks.endless {p : RunState × Progress} (h : v.Looks s₀ looks p)
    (endless : s₀.world.deadline? v.patience = none) :
    p.2 ≠ .ended (.ok (.bool false)) ∧ ∀ deadline ticket due,
      p.2 = .waiting (.polling v.node v.spec deadline ticket due) → deadline = none := by
  have next (s : RunState) : (poll v.engine v.node v.spec none s).2 ≠ .ended (.ok (.bool false)) ∧
      ∀ deadline ticket due, (poll v.engine v.node v.spec none s).2 =
        .waiting (.polling v.node v.spec deadline ticket due) → deadline = none := by
    unfold poll
    split
    · exact ⟨nofun, nofun⟩
    · split
      · exact ⟨nofun, nofun⟩
      · refine ⟨nofun, fun deadline ticket due same => ?_⟩
        cases same
        rfl
  induction h with
  | first => exact endless ▸ next _
  | again before aside ih => exact ih.2 _ _ _ rfl ▸ next _

/-- An interval begins before the wait is given up if those before it do not fill its time. -/
theorem lt_most_iff : n < v.most ↔ n * v.interval < v.timeout := by
  rw [most, ← Nat.not_le, ceilDiv_le_iff_le_mul interval_pos, Nat.not_le, Nat.mul_comm]

namespace Stands

variable (stands : v.Stands s₀ earlier last)

include stands

/-- A wait takes no more looks than fit in its patience. -/
theorem length_le : earlier.length ≤ v.most := by
  cases length : earlier.length with
  | zero => exact Nat.zero_le _
  | succ n => exact lt_most_iff.2 (stands.early n (length ▸ Nat.lt_succ_self n))

theorem now_eq : last.now = v.instant s₀ earlier.length := by
  have times := stands.times
  rw [List.map_append, List.range_succ, List.map_append, List.map_singleton,
    List.map_singleton] at times
  exact (List.append_singleton_inj.1 times).2

/-- What a wait has come to when it ends. -/
theorem ended {outcome : Except Fault Json}
    (comes : v.Comes s₀ earlier.length last (s, .ended outcome)) :
    s = last ∧ (outcome = .ok (.bool true) ∧ last.holds v.spec.condition = true ∨
      outcome = .ok (.bool false) ∧ last.holds v.spec.condition = false ∧
        last.now = s₀.now + v.timeout ∧ earlier.length = v.most) := by
  cases comes with
  | met holds => exact ⟨rfl, .inl ⟨rfl, holds⟩⟩
  | missed fails late =>
    have last : min (earlier.length * v.interval) v.timeout = v.timeout :=
      Nat.add_left_cancel (stands.now_eq.symm.trans late)
    have all : ¬ earlier.length < v.most :=
      fun more => Nat.not_le.2 (lt_most_iff.1 more) (min_eq_right_iff.1 last)
    exact ⟨rfl, .inr ⟨rfl, fails, late, Nat.le_antisymm stands.length_le (Nat.not_lt.1 all)⟩⟩

/-- The looks of a wait say what has become of it. -/
theorem watched {q : RunState × Progress} (comes : v.Comes s₀ earlier.length last q) :
    v.Watched s₀ (close v.node q) earlier last where
  times := stands.times
  count := by
    rw [List.length_append]
    exact Nat.add_le_add_right stands.length_le 1
  vain := stands.vain
  ended outcome ends := by
    obtain ⟨s, progress⟩ := q
    cases progress with
    | waiting activity => cases ends
    | ended outcome =>
      cases ends
      obtain ⟨rfl, settled⟩ := stands.ended comes
      rw [show (close v.node (s, .ended outcome)).1.now = s.now from s.now_record _ _]
      exact ⟨rfl, settled⟩
  waits activity waits := by
    obtain ⟨s, progress⟩ := q
    cases progress with
    | ended outcome => cases waits
    | waiting activity =>
      cases waits
      cases comes with
      | waits fails early =>
        refine ⟨fails, lt_most_iff.2 early, fun timer member => ?_⟩
        rw [List.mem_singleton.1 member]
        rfl

end Stands

end Vigil

variable {engine : Engine} {root node : Node} {spec : WaitSpec} {s s₀ : RunState}

/-- A wait starts with a look at its condition. -/
theorem start_of_wait (kind : node.kind = .wait spec) (live : s.context.cancelled = false) :
    start engine s node = close node (poll engine node spec
      (s.world.deadline? (Vigil.patience ⟨engine, node, spec⟩)) (s.startNode node)) := by
  have deadline (length : Duration) :
      (s.startNode node).world.deadline? length = s.world.deadline? length :=
    World.deadline?_congr rfl length
  rw [start_eq, if_neg (ne_true_of_eq_false live)]
  simp only [work, kind, startWait, deadline, Vigil.patience]

/-- An execution of a wait by the clock takes its looks, and its end is recorded. -/
theorem Execution.looks {p : RunState × Progress} (h : Execution engine OnTime node s₀ p)
    (kind : node.kind = .wait spec) (live : p.1.context.cancelled = false) :
    ∃ looks q, Vigil.Looks ⟨engine, node, spec⟩ s₀ looks q ∧ p = close node q := by
  induction h with
  | starts =>
    have fresh : s₀.context.cancelled = false := alive_of (dead_start node) live
    exact ⟨_, _, .first, start_of_wait kind fresh⟩
  | @goesOn s s' activity bell before aside held awake ih =>
    have alive : s'.context.cancelled = false := alive_of (dead_resume activity) live
    obtain ⟨looks, q, looked, same⟩ := ih (aside.live alive)
    rw [eq_of_close_waiting same] at looked
    obtain ⟨deadline, own, due, rfl⟩ := looked.polling
    rw [resume_eq held]
    have now : due = s'.now := awake alive _ List.mem_cons_self (List.mem_singleton.1 held).symm
    exact ⟨_, _, .again (now ▸ looked) aside, rfl⟩

/-- A wait in a run by the clock is not kept for longer than its time. -/
theorem Punctual.now_le {activity part : Activity} {bound : Option TimeLimit} {s' : RunState}
    (h : Punctual engine root s (.active activity bound)) (inside : part.Inside activity)
    (kind : node.kind = .wait spec)
    (execution : Execution engine OnTime node s₀ (s', .waiting part))
    (live : s'.context.cancelled = false) (told : Vigil.Told ⟨engine, node, spec⟩ s₀) :
    s.now ≤ s₀.now + Vigil.timeout ⟨engine, node, spec⟩ := by
  obtain ⟨looks, q, looked, same⟩ := execution.looks kind live
  rw [eq_of_close_waiting same] at looked
  obtain ⟨earlier, last, rfl, stands, comes⟩ := looked.comes told live
  cases comes with
  | waits =>
    have soon : s.now ≤ Vigil.instant ⟨engine, node, spec⟩ s₀ (earlier.length + 1) :=
      h.ahead _ inside _ rfl
    exact Nat.le_trans soon (Nat.add_le_add_left (Nat.min_le_right ..) _)

/-- Every wait for which a run by the clock waits is in an execution, and unless the run is
cancelled it is kept no longer than its time; and the run ends, or its clock passes that time, as
any other. A wait whose end the clock can tell, and that is not cancelled, looks at its condition
when it starts, whenever an interval has gone by, and at last when it is given up, and at no other
time. It comes to true with the first look that finds that the condition holds, and to false when it
is given up, if no look has found so, with as many looks as intervals begin before and one more. A
wait whose end the clock cannot tell is never given up. -/
theorem wait_watched (engine : Engine) (distinct : root.ids.Nodup) :
    (∀ (limit : Option Duration) {s₀ : RunState} (actions : List Action),
      s₀.context.Untouched root →
      (∀ time, Passes engine time actions (launch engine root limit s₀)) ∧
      ∀ {s : RunState} {activity part : Activity} {bound : Option TimeLimit} {spec : WaitSpec}
        (steps : Nat),
        play engine steps actions (launch engine root limit s₀) = (s, .active activity bound) →
        part.Inside activity → part.node.kind = .wait spec →
        ∃ s₁ s', s₁.context.cancelled = false ∧ s₁.context.Untouched part.node ∧
          Execution engine OnTime part.node s₁ (s', .waiting part) ∧ Aside part.node.ids s' s ∧
          (s.context.cancelled = false → Vigil.Told ⟨engine, part.node, spec⟩ s₁ →
            s.now ≤ s₁.now + Vigil.timeout ⟨engine, part.node, spec⟩)) ∧
    ∀ {node : Node} {spec : WaitSpec} {s₀ : RunState} {p : RunState × Progress},
      node.kind = .wait spec → Execution engine OnTime node s₀ p → p.1.context.cancelled = false →
      let v : Vigil := ⟨engine, node, spec⟩
      (v.Told s₀ → ∃ earlier last q, v.Looks s₀ (earlier ++ [last]) q ∧ p = close node q ∧
        v.Watched s₀ p earlier last) ∧
      (signedBound ≤ s₀.now / millisPerSecond + v.patience.secs →
        p.2 ≠ .ended (.ok (.bool false))) := by
  refine ⟨fun limit {s₀} actions untouched => ?_,
    fun {node spec s₀ p} kind execution live => ⟨fun told => ?_, fun beyond ends => ?_⟩⟩
  · have launched : Punctual engine root (launch engine root limit s₀).1
        (launch engine root limit s₀).2 := punctual_launch untouched distinct
    refine ⟨fun time => launched.passes distinct time actions,
      fun {s activity part bound spec} steps played inside kind => ?_⟩
    have punctual := launched.play distinct steps actions
    rw [played] at punctual
    obtain ⟨s₁, s', fresh, unstarted, execution, aside⟩ := punctual.executes part inside
    exact ⟨s₁, s', fresh, unstarted, execution, aside, fun live told =>
      punctual.now_le inside kind execution (aside.live live) told⟩
  · obtain ⟨looks, q, looked, rfl⟩ := execution.looks kind live
    rw [cancelled_close] at live
    obtain ⟨earlier, last, rfl, stands, comes⟩ := looked.comes told live
    exact ⟨earlier, last, q, looked, rfl, stands.watched comes⟩
  · obtain ⟨looks, ⟨s', progress⟩, looked, rfl⟩ := execution.looks kind live
    have kept := (looked.endless (if_pos beyond)).1
    cases progress with
    | waiting activity => cases ends
    | ended outcome =>
      cases ends
      exact kept rfl

/-! ## A wait in vain, and one without an end -/

/-- A wait goes on with a look when its nap is over. -/
theorem Execution.looks_again {s' : RunState} {deadline : Option Nat} {ticket due : Nat}
    (h : Execution engine OnTime node s₀ (s, .waiting (.polling node spec deadline ticket due)))
    (aside : Aside node.ids s s') (now : s'.now = due) :
    Execution engine OnTime node s₀ (close node (poll engine node spec deadline s')) := by
  have held : ticket ∈ (Activity.polling node spec deadline ticket due).tickets :=
    List.mem_cons_self
  have onTime : OnTime s' (.polling node spec deadline ticket due) ticket := by
    intro _ timer member _
    rw [List.mem_singleton.1 member]
    exact now.symm
  have goes := @Execution.goesOn _ _ _ _ _ _ _ ⟨ticket, false⟩ h aside held onTime
  rw [resume, if_pos rfl] at goes
  exact goes

/-- An engine whose tasks are answered at once. -/
def prompt : Engine := ⟨.echo, .standard⟩

/-- The condition that is one name. -/
theorem compile_name : Condition.compile "x" = .ok (.path [.field "x"]) := by
  have chars : "x".toList = ['x'] := rfl
  have tokens : Condition.lex "x".toList 0 = .ok [⟨.word "x", 0⟩] := by
    rw [chars]
    exact Condition.lex_cons (by decide) rfl (Condition.lex_nil 1)
  have alone : Condition.segments "x".length [] = .ok ⟨[], [], Nat.le_refl _⟩ := by
    simp [Condition.segments]
  exact Condition.compile_of_segments tokens alone rfl

/-- What nobody has set does not hold. -/
theorem not_holds_unset {s : RunState} (bare : s.context.scope = ⟨[], []⟩) :
    s.holds "x" = false := by
  rw [RunState.holds, bare, Condition.succeeds, Condition.evaluate, compile_name]
  rfl

/-- A wait for something that nobody sets: fifteen milliseconds, with a look every ten. -/
def vainly : WaitSpec := ⟨"x", some (.ofMillis 15), some (.ofMillis 10)⟩

/-- A wait for it whose end lies beyond what the clock can tell. -/
def forever : WaitSpec := ⟨"x", some (.ofSecs (10 ^ 19)), some (.ofMillis 10)⟩

/-- The first looks three times, the last time when it is given up; the second is never given up. -/
theorem wait_watched_vainly :
    let node : Node := .make "wait" (.wait vainly) []
    let v : Vigil := ⟨prompt, node, vainly⟩
    let endless : Node := .make "endless" (.wait forever) []
    node.ids.Nodup ∧ outset.context.Untouched node ∧ node.kind = .wait vainly ∧ v.Told outset ∧
      (∃ s activity, play prompt 0 [] (launch prompt node none outset) =
          (s, .active activity none) ∧ activity.node.kind = .wait vainly ∧
        s.context.cancelled = false ∧ ∃ s₁ s', Execution prompt OnTime node s₁ (s', .waiting activity) ∧
          (v.Told s₁ → s.now ≤ s₁.now + v.timeout)) ∧
      (∃ s, Execution prompt OnTime node outset (s, .ended (.ok (.bool false))) ∧
        s.context.cancelled = false ∧ s.now = 15 ∧ ∃ first second last q,
          v.Looks outset [first, second, last] q ∧
            [first, second, last].map RunState.now = [0, 10, 15]) ∧
      ∃ p, Execution prompt OnTime endless outset p ∧ p.1.context.cancelled = false ∧
        signedBound ≤ outset.now / millisPerSecond +
          (Vigil.patience ⟨prompt, endless, forever⟩).secs ∧ p.2 ≠ .ended (.ok (.bool false)) := by
  intro node v endless
  have distinct : node.ids.Nodup := by decide
  have untouched : outset.context.Untouched node := fun _ _ => rfl
  have told : v.Told outset := by
    unfold Vigil.Told
    decide
  have watched := wait_watched prompt distinct
  have ends : outset.world.deadline? v.patience = some 15000000 := by decide
  have nap₁ (s : RunState) (now : s.world.now = 0) :
      s.world.wakeAt (v.nap (some 15000000) s) = 10 := by
    unfold Vigil.nap World.wakeAt RunState.now
    rw [now]
    decide
  have nap₂ (s : RunState) (now : s.world.now = 10) :
      s.world.wakeAt (v.nap (some 15000000) s) = 15 := by
    unfold Vigil.nap World.wakeAt RunState.now
    rw [now]
    decide
  -- the states of the three looks
  let s₁ := outset.startNode node
  let s₂ := later s₁.takeTicket.2 10
  let s₃ := later s₂.takeTicket.2 15
  have first : poll prompt node vainly (some 15000000) s₁ =
      (s₁.takeTicket.2, .waiting (.polling node vainly (some 15000000) 0 10)) := by
    have looked := @Vigil.poll_of_unmet v s₁ (some 15000000) rfl (not_holds_unset rfl)
      (by decide)
    rw [nap₁ _ rfl] at looked
    exact looked
  have second : poll prompt node vainly (some 15000000) s₂ =
      (s₂.takeTicket.2, .waiting (.polling node vainly (some 15000000) 1 15)) := by
    have looked := @Vigil.poll_of_unmet v s₂ (some 15000000) rfl (not_holds_unset rfl)
      (by decide)
    rw [nap₂ _ rfl] at looked
    exact looked
  have third : poll prompt node vainly (some 15000000) s₃ = (s₃, .ended (.ok (.bool false))) := by
    have live : s₃.context.cancelled = false := rfl
    have fails : s₃.holds vainly.condition = false := not_holds_unset rfl
    rw [poll, if_neg (ne_true_of_eq_false live), if_neg (ne_true_of_eq_false fails)]
    exact if_pos (by decide)
  have started : start prompt outset node =
      (s₁.takeTicket.2, .waiting (.polling node vainly (some 15000000) 0 10)) := by
    have begun := @start_of_wait prompt node vainly outset rfl rfl
    rw [ends, first] at begun
    exact begun
  have launched : play prompt 0 [] (launch prompt node none outset) =
      (s₁.takeTicket.2, .active (.polling node vainly (some 15000000) 0 10) none) := by
    rw [play, launch, started]
    rfl
  have begun : Execution prompt OnTime node outset (start prompt outset node) := .starts
  rw [started] at begun
  have again := begun.looks_again (.later _ _ 10) rfl
  rw [second] at again
  have last := again.looks_again (.later _ _ 15) rfl
  rw [third] at last
  have waits : start prompt outset endless =
      ((outset.startNode endless).takeTicket.2, .waiting (.polling endless forever none 0 10)) := by
    have begun := @start_of_wait prompt endless forever outset rfl rfl
    have boundless : outset.world.deadline? (Vigil.patience ⟨prompt, endless, forever⟩) = none := by
      decide
    have nap₀ (s : RunState) (now : s.world.now = 0) :
        s.world.wakeAt (Vigil.nap ⟨prompt, endless, forever⟩ none s) = 10 := by
      unfold Vigil.nap World.wakeAt RunState.now
      rw [now]
      decide
    rw [boundless, Vigil.poll_of_unmet (v := ⟨prompt, endless, forever⟩) rfl (not_holds_unset rfl)
      rfl, nap₀ _ rfl] at begun
    exact begun
  have beyond : signedBound ≤ outset.now / millisPerSecond +
      (Vigil.patience ⟨prompt, endless, forever⟩).secs := by decide
  have kept : Execution prompt OnTime endless outset (start prompt outset endless) := .starts
  rw [waits] at kept
  refine ⟨distinct, untouched, rfl, told, ⟨_, _, launched, rfl, rfl, ?_⟩, ⟨_, last, rfl, rfl, ?_⟩,
    _, kept, rfl, beyond, (watched.2 rfl kept rfl).2 beyond⟩
  · obtain ⟨s₀, s', -, -, execution, -, soon⟩ :=
      (watched.1 none [] untouched).2 0 launched .self rfl
    exact ⟨s₀, s', execution, soon rfl⟩
  · obtain ⟨earlier, final, q, looked, -, watched⟩ := (watched.2 rfl last rfl).1 told
    obtain ⟨-, ⟨yes, -⟩ | ⟨-, -, -, count⟩⟩ := watched.ended _ rfl
    · cases yes
    have most : v.most = 2 := by decide
    obtain ⟨a, b, rfl⟩ := List.length_eq_two.1 (count.trans most)
    have times : (List.range 3).map (fun n => outset.now + min (n * v.interval) v.timeout) =
        [0, 10, 15] := by decide
    exact ⟨a, b, final, q, looked, watched.times.trans times⟩

end Stepwise.Run

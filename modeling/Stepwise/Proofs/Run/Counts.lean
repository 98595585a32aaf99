import Stepwise.Proofs.Context.Lifecycle
import Stepwise.Proofs.Run.Results

/-!
# Counts of nodes

A context lists its nodes by their ids, each of them once, and every act of a run keeps the list in
this order. So what a context counts are nodes of the tree that runs, and none is counted twice or
left out (`Reaches.counts`).
-/

namespace Stepwise

namespace Context

variable {context : Context}

/-- How many nodes of a tree are in a state. -/
def countIn (context : Context) (root : Node) (state : NodeState) : Nat :=
  root.preorder.countP (fun node => context.state node.id = state)

/-- A context counts the ids of the nodes that it lists in a state. -/
theorem countState_eq_length (sorted : context.nodes.Sorted) (state : NodeState) :
    context.countState state =
      (context.nodes.keys.filter (fun id => context.state id = state)).length := by
  rw [← List.countP_eq_length_filter, Table.keys, List.countP_map, countState]
  refine List.countP_congr fun entry member => ?_
  rw [Function.comp, Context.state, phase, sorted.find?_eq member]
  rfl

/-- What a context counts are the nodes of a tree, if none but these have begun. -/
theorem countState_eq (sorted : context.nodes.Sorted) {root : Node} (distinct : root.ids.Nodup)
    (begun : ∀ id, context.state id ≠ .pending → id ∈ root.ids) {state : NodeState}
    (other : state ≠ .pending) : context.countState state = context.countIn root state := by
  have inTree : context.countIn root state =
      (root.ids.filter (fun id => context.state id = state)).length := by
    rw [← List.countP_eq_length_filter, Node.ids, List.countP_map, countIn]
    rfl
  have perm : (context.nodes.keys.filter (fun id => context.state id = state)).Perm
      (root.ids.filter (fun id => context.state id = state)) := by
    refine (List.perm_ext_iff_of_nodup (sorted.nodup_keys.filter _) (distinct.filter _)).2
      fun id => ?_
    simp only [List.mem_filter, decide_eq_true_eq]
    -- A node in such a state has begun, so it is listed and belongs to the tree.
    refine and_congr_left fun same => ⟨fun _ => begun id (same ▸ other), fun _ => ?_⟩
    exact mem_keys_of_ne (same ▸ other)
  rw [countState_eq_length sorted, inTree, perm.length_eq]

/-- Two contexts in which each node is in the same state count the same. -/
theorem counts_congr {later : Context} (sorted : context.nodes.Sorted)
    (sorted' : later.nodes.Sorted) (same : ∀ id, context.state id = later.state id) :
    context.counts = later.counts := by
  have each (state : NodeState) (other : state ≠ .pending) :
      context.countState state = later.countState state := by
    have perm : (context.nodes.keys.filter (fun id => context.state id = state)).Perm
        (later.nodes.keys.filter (fun id => later.state id = state)) := by
      refine (List.perm_ext_iff_of_nodup (sorted.nodup_keys.filter _)
        (sorted'.nodup_keys.filter _)).2 fun id => ?_
      simp only [List.mem_filter, decide_eq_true_eq, ← same id]
      refine and_congr_left fun begun => ⟨fun _ => ?_, fun _ => ?_⟩
      · exact mem_keys_of_ne (same id ▸ begun ▸ other)
      · exact mem_keys_of_ne (begun ▸ other)
    rw [countState_eq_length sorted, countState_eq_length sorted', perm.length_eq]
  rw [counts, counts, each .completed nofun, each .failed nofun, each .cancelled nofun]

end Context

namespace RunState

variable {s : RunState}

/-- The records stay in the order of their ids when a node ends. -/
theorem sorted_record (h : s.context.nodes.Sorted) (id : String) (outcome : Except Fault Json) :
    (s.record id outcome).context.nodes.Sorted := by
  cases outcome with
  | ok value =>
    simp only [record]
    split <;> next ended =>
      cases congrArg Prod.snd ended
      exact h.insert ..
  | error fault =>
    simp only [record]
    split
    · have cancelled := Context.sorted_cancelNode h s.now id
      split <;> next ended =>
        cases congrArg Prod.snd ended
        exact cancelled
    · split <;> next ended =>
        cases congrArg Prod.snd ended
        exact h.insert ..

theorem sorted_rearm (h : s.context.nodes.Sorted) (nodes : List Node) :
    (s.rearm nodes).context.nodes.Sorted := by
  rw [rearm]
  revert h
  generalize s.context = context
  intro h
  induction nodes generalizing context with
  | nil => exact h
  | cons node rest ih => exact ih _ (Context.sorted_rearm h node)

/-- They do when the children of a block are swept. -/
theorem sorted_sweep (h : s.context.nodes.Sorted) (nodes : List Node) :
    (s.sweep nodes).context.nodes.Sorted := by
  induction nodes generalizing s with
  | nil => exact h
  | cons node rest ih =>
    have swept := Context.sorted_cancelAll h s.now node.ids
    simp only [sweep]
    split
    · exact ih swept
    · exact ih swept

theorem sorted_applyAll (h : s.context.nodes.Sorted) (effects : List Effect) :
    (s.applyAll effects).context.nodes.Sorted := by
  induction effects generalizing s with
  | nil => exact h
  | cons effect rest ih =>
    refine ih ?_
    have swept (s : RunState) (h : s.context.cancel.nodes.Sorted) :
        s.cancelExecution.context.nodes.Sorted := Context.sorted_cancelAll h s.now _
    cases effect with
    | setVariable name value => exact h
    | cancelToken => exact h
    | cancelExecution => exact swept s h
    | cancelWorkflow id =>
      simp only [apply]
      split
      · exact swept _ h
      · exact h

/-- Every act of a run keeps the nodes in order. -/
theorem sorted_act {engine : Engine} {manner : Manner} {ids : List String} {s' : RunState}
    (act : Act engine manner ids s s') (h : s.context.nodes.Sorted) : s'.context.nodes.Sorted := by
  cases act with
  | list => exact h.insert ..
  | begin live member => exact h.insert ..
  | @call caller call live =>
    have placed : (s.place engine caller call).2.context.nodes.Sorted := h
    exact sorted_applyAll placed _
  | callLater | stray | note => exact h
  | affect effects => exact sorted_applyAll h effects
  | retry => exact h.insert ..
  | wait => exact h
  | rearm live members => exact sorted_rearm h _
  | record heeds member => exact sorted_record h _ _
  | sweep members => exact sorted_sweep h _

end RunState

namespace Run

/-- In every state that a run reaches, what is counted are the nodes of its tree. -/
theorem Reaches.counts {engine : Engine} {root : Node} {limit : Option Duration} {s₀ : RunState}
    {p : RunState × Stage} (h : Reaches engine root limit s₀ p) (distinct : root.ids.Nodup)
    (nodes : s₀.context.nodes = []) (results : s₀.context.results = []) :
    p.1.context.counts = ⟨p.1.context.countIn root .completed, p.1.context.countIn root .failed,
      p.1.context.countIn root .cancelled⟩ := by
  have sorted : p.1.context.nodes.Sorted := by
    refine h.invariant (fun s => s.context.nodes.Sorted) (s₀.context.untouched_of_nodes nodes root)
      distinct ?_ (fun _ _ sorted => sorted) fun _ _ act sorted => RunState.sorted_act act sorted
    rw [nodes]
    exact .nil
  have begun (id : String) (touched : p.1.context.state id ≠ .pending) : id ∈ root.ids :=
    ((h.accounts distinct nodes results).context.begun id touched).1
  have count (state : NodeState) (other : state ≠ .pending) :
      p.1.context.countState state = p.1.context.countIn root state :=
    Context.countState_eq sorted distinct begun other
  rw [Context.counts, count .completed nofun, count .failed nofun, count .cancelled nofun]

end Run

end Stepwise

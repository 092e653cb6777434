import Ahttpd.Basis.Termination
import Mathlib.Algebra.Order.BigOperators.Group.Finset

/-!
# Tasks that share a store

Every task has a state of its own and moves in atomic steps, in each of which it
looks at the store and applies operations to it. Operations may come from
outside, too. In whatever order the tasks move, the store is what the operations
make of it one after the other (`store_of_reachable`).

`task_invariant` is the rule for what a task knows: it speaks of the operations
so far, of the task's own among them and of its state, and is kept by the moves
of the task and by the operations of others. `alone_falls` and `alone_stuck_iff`
bound the runs without operations from outside, and say where they end.
-/

namespace Basis

/-- A store, its operations and the tasks that apply them. -/
structure Shared (ι S O L : Type*) where
  store : S
  apply : S → O → S
  task : ι → L
  move : ι → S → L → List O → L → Prop
  outside : O → Prop

/-- Who has applied an operation: a task, or somebody outside. -/
abbrev SharedLog (ι O : Type*) := List (Option ι × O)

structure SharedState (ι S O L : Type*) where
  store : S
  task : ι → L
  log : SharedLog ι O

namespace SharedLog

variable {ι O : Type*}

/-- The operations on the store. -/
def ops (log : SharedLog ι O) : List O := log.map (·.2)

/-- The entries of a move. -/
def entries (i : ι) (ops : List O) : SharedLog ι O := ops.map fun op => (some i, op)

@[simp] theorem ops_entries (log : SharedLog ι O) (i : ι) (more : List O) :
    ops (log ++ entries i more) = ops log ++ more := by
  rw [ops, List.map_append, entries, List.map_map]
  exact congrArg (ops log ++ ·) (List.map_id _)

@[simp] theorem ops_outside (log : SharedLog ι O) (op : O) :
    ops (log ++ [(none, op)]) = ops log ++ [op] :=
  List.map_append

variable [DecidableEq ι]

/-- The operations of a task. -/
def opsOf (i : ι) (log : SharedLog ι O) : List O :=
  log.filterMap fun entry => if entry.1 = some i then some entry.2 else none

@[simp] theorem opsOf_self (log : SharedLog ι O) (i : ι) (more : List O) :
    opsOf i (log ++ entries i more) = opsOf i log ++ more := by
  simp [opsOf, entries, List.filterMap_append, List.filterMap_map]

theorem opsOf_other (log : SharedLog ι O) {i j : ι} (other : i ≠ j) (more : List O) :
    opsOf i (log ++ entries j more) = opsOf i log := by
  simp [opsOf, entries, List.filterMap_append, List.filterMap_map, other.symm]

@[simp] theorem opsOf_outside (log : SharedLog ι O) (i : ι) (op : O) :
    opsOf i (log ++ [(none, op)]) = opsOf i log := by
  simp [opsOf, List.filterMap_append]

theorem mem_opsOf {log : SharedLog ι O} {i : ι} {op : O} :
    op ∈ opsOf i log ↔ (some i, op) ∈ log := by
  rw [opsOf, List.mem_filterMap]
  constructor
  · intro applied
    rcases applied with ⟨⟨who, op'⟩, member, isOp⟩
    simp only [Option.ite_none_right_eq_some, Option.some.injEq] at isOp
    rwa [← isOp.1, ← isOp.2]
  · exact fun member => ⟨_, member, if_pos rfl⟩

end SharedLog

namespace Shared

open SharedLog

variable {ι S O L : Type*} {T : Shared ι S O L}

/-- The store after these operations. -/
def after (T : Shared ι S O L) (ops : List O) : S := ops.foldl T.apply T.store

theorem after_append (ops more : List O) :
    T.after (ops ++ more) = more.foldl T.apply (T.after ops) :=
  List.foldl_append

variable [DecidableEq ι] {s t : SharedState ι S O L}

/-- A move of one task, or an operation from outside. -/
inductive Step (T : Shared ι S O L) : SharedState ι S O L → SharedState ι S O L → Prop
  | move {s : SharedState ι S O L} (i : ι) {ops : List O} {l : L} :
      T.move i s.store (s.task i) ops l →
      Step T s ⟨ops.foldl T.apply s.store, Function.update s.task i l,
        s.log ++ entries i ops⟩
  | outside {s : SharedState ι S O L} {op : O} : T.outside op →
      Step T s ⟨T.apply s.store op, s.task, s.log ++ [(none, op)]⟩

def system (T : Shared ι S O L) : TransitionSystem (SharedState ι S O L) where
  init s := s = ⟨T.store, T.task, []⟩
  step := Step T

/-- **One operation after the other**, in every interleaving. -/
theorem store_of_reachable (reached : T.system.Reachable s) : s.store = T.after (ops s.log) := by
  refine reached.invariant (P := fun s => s.store = T.after (ops s.log)) ?_ ?_
  · intro s initial
    have isStart : s = ⟨T.store, T.task, []⟩ := initial
    exact isStart ▸ rfl
  · intro s t isStore step
    cases step with
    | move i moves => simp only [ops_entries, after_append, isStore]
    | outside isOutside =>
        simp only [ops_outside, after_append, isStore, List.foldl_cons, List.foldl_nil]

/-- What comes from outside is as it may be. -/
theorem outside_of_reachable (reached : T.system.Reachable s) {op : O}
    (member : (none, op) ∈ s.log) : T.outside op := by
  refine reached.invariant (P := fun s => ∀ op, (none, op) ∈ s.log → T.outside op) ?_ ?_ op member
  · intro s initial op member
    have isStart : s = ⟨T.store, T.task, []⟩ := initial
    rw [isStart] at member
    cases member
  · intro s t known step op member
    cases step with
    | move i moves =>
        rcases List.mem_append.mp member with earlier | new
        · exact known op earlier
        · obtain ⟨op', -, same⟩ := List.mem_map.mp new
          cases same
    | outside isOutside =>
        rcases List.mem_append.mp member with earlier | new
        · exact known op earlier
        · cases List.mem_singleton.mp new
          exact isOutside

/-- **What a task knows**: its own moves keep it, and so does whatever the others
do. -/
theorem task_invariant {I : ι → List O → List O → L → Prop}
    (start : ∀ i, I i [] [] (T.task i))
    (moves : ∀ i ops own l more l', I i ops own l → T.move i (T.after ops) l more l' →
      I i (ops ++ more) (own ++ more) l')
    (others : ∀ i ops own l more, I i ops own l → I i (ops ++ more) own l)
    (reached : T.system.Reachable s) (i : ι) : I i (ops s.log) (opsOf i s.log) (s.task i) := by
  refine reached.invariant_of_known (P := fun s => ∀ i, I i (ops s.log) (opsOf i s.log) (s.task i))
    (Q := T.system.Reachable) (fun _ reached => reached) ?_ ?_ i
  · intro s initial i
    have isStart : s = ⟨T.store, T.task, []⟩ := initial
    exact isStart ▸ start i
  · intro s t known holds step i
    cases step with
    | @move j more l moved =>
        rw [store_of_reachable known] at moved
        by_cases here : i = j
        · subst here
          simp only [ops_entries, opsOf_self, Function.update_self]
          exact moves i _ _ _ _ _ (holds i) moved
        · simp only [ops_entries, opsOf_other _ here, Function.update_of_ne here]
          exact others i _ _ _ _ (holds i)
    | outside isOutside =>
        simp only [ops_outside, opsOf_outside]
        exact others i _ _ _ _ (holds i)

/-! ## Left alone -/

/-- Nothing comes from outside. -/
def alone (T : Shared ι S O L) : Shared ι S O L := { T with outside := fun _ => False }

theorem Step.of_alone (step : T.alone.Step s t) : T.Step s t := by
  cases step with
  | move i moves => exact .move i moves
  | outside none => exact none.elim

theorem reachable_of_run {k : Nat} (reached : T.system.Reachable s)
    (run : T.alone.system.Run s k t) : T.system.Reachable t := by
  induction run with
  | refl => exact reached
  | tail _ step ih => exact ih.next step.of_alone

theorem alone_falls [Fintype ι] {budget : ι → L → Nat}
    (falls : ∀ i store l ops l', T.move i store l ops l' → budget i l' < budget i l) :
    T.alone.system.Falls fun s => ∑ i, budget i (s.task i) := by
  intro s t step
  cases step with
  | @move j ops l moves =>
      refine Finset.sum_lt_sum (fun i _ => ?_) ⟨j, Finset.mem_univ j, ?_⟩
      · by_cases here : i = j
        · subst here
          dsimp only
          rw [Function.update_self]
          exact Nat.le_of_lt (falls i _ _ _ _ moves)
        · dsimp only
          rw [Function.update_of_ne here]
      · dsimp only
        rw [Function.update_self]
        exact falls j _ _ _ _ moves
  | outside none => exact none.elim

/-- Where it stops no task can move. -/
theorem alone_stuck_iff :
    T.alone.system.Stuck s ↔ ∀ i ops l, ¬T.move i s.store (s.task i) ops l := by
  constructor
  · exact fun stuck i ops l moves => stuck _ (.move i moves)
  · intro none t step
    cases step with
    | move i moves => exact none i _ _ moves
    | outside none => exact none.elim

end Shared

end Basis

import Ahttpd.Basis.Transition
import Mathlib.Algebra.BigOperators.Fin
import Mathlib.Algebra.Order.Group.Multiset

/-!
# The thread pool

The task queue of `ThreadPool`, its workers, the condition variable and the
destructor. The atomic steps are the sections under `queue_mutex` and the
calls of `notify_one` and `notify_all`, which both happen after the lock is
released. `condition.wait` with a predicate re-tests it under the lock, so a
worker that has been woken is simply `ready` again.

* `PoolInv` is the invariant over the queue, the workers, the pending
  notifications and the stop flag.
* `threadPool_contract` reads off it that no task is lost, duplicated or
  reordered and that no wake-up is lost.
-/

namespace Ahttpd

open Basis

/-- Where the thread of a worker is in its loop. -/
inductive Worker (τ : Type*)
  /-- Before the lock: at the head of the loop, or woken from the wait. -/
  | ready
  /-- Blocked in `condition.wait`. -/
  | waiting
  /-- Running a task it took from the queue. -/
  | running (task : τ)
  /-- Inside `task`, between a push of `wait_to_enqueue` and its notification. -/
  | notifying (task : τ)
  /-- Out of the loop. -/
  | exited

namespace Worker

variable {τ : Type*}

/-- The worker is neither blocked nor gone: it will look at the queue again. -/
def Awake : Worker τ → Prop
  | .ready | .running _ | .notifying _ => True
  | .waiting | .exited => False

/-- The task a worker has taken and not finished. -/
def held : Worker τ → Multiset τ
  | .running task | .notifying task => {task}
  | .ready | .waiting | .exited => 0

@[simp] theorem held_ready : (ready : Worker τ).held = 0 := rfl

@[simp] theorem held_running (task : τ) : (running task).held = {task} := rfl

end Worker

/-- How far `~ThreadPool` is. -/
inductive Destructor
  | before
  /-- `stopped` is set and `notify_all` is still to come. -/
  | notifying
  /-- Joining the workers. -/
  | joining

/-- A pool of `n` workers. `callers` counts the outside threads that have
pushed and still have to call `notify_one`; the last three fields record the
order of the pushes, of the pops and of the returns of tasks. -/
structure PoolState (n : Nat) (τ : Type*) where
  tasks : List τ
  stopped : Bool
  workers : Fin n → Worker τ
  callers : Nat
  destructor : Destructor
  pushed : List τ
  taken : List τ
  finished : List τ

/-- `ThreadPool::ThreadPool` has started the workers. -/
def PoolState.constructed (n : Nat) (τ : Type*) : PoolState n τ :=
  ⟨[], false, fun _ => .ready, 0, .before, [], [], []⟩

/-- `condition.notify_one`: it wakes one blocked worker, if there is one. -/
inductive NotifyOne {n : Nat} {τ : Type*} : (Fin n → Worker τ) → (Fin n → Worker τ) → Prop
  | wake {workers : Fin n → Worker τ} {w : Fin n} :
      workers w = .waiting → NotifyOne workers (Function.update workers w .ready)
  | nobody {workers : Fin n → Worker τ} :
      (∀ w, workers w ≠ .waiting) → NotifyOne workers workers

/-- `condition.notify_all`. -/
def notifyAll {n : Nat} {τ : Type*} (workers : Fin n → Worker τ) : Fin n → Worker τ :=
  fun w => match workers w with
    | .waiting => .ready
    | other => other

/-- What a step does to the tasks. -/
inductive PoolEvent (n : Nat) (τ : Type*)
  | push (task : τ)
  | take (w : Fin n) (task : τ)
  | finish (w : Fin n) (task : τ)
  | silent

/-- The task that enters the queue, if any. -/
def PoolEvent.pushes {n : Nat} {τ : Type*} : PoolEvent n τ → List τ
  | .push task => [task]
  | .take _ _ | .finish _ _ | .silent => []

/-- The task that leaves the queue, if any. -/
def PoolEvent.takes {n : Nat} {τ : Type*} : PoolEvent n τ → List τ
  | .take _ task => [task]
  | .push _ | .finish _ _ | .silent => []

/-- One atomic step of an outside thread, of a worker or of the destructor. -/
inductive PoolStep {n : Nat} {τ : Type*} :
    PoolState n τ → PoolEvent n τ → PoolState n τ → Prop
  /-- `wait_to_enqueue` from outside, before destruction begins. -/
  | enqueue {s} (task : τ) : s.destructor = .before →
      PoolStep s (.push task)
        { s with tasks := s.tasks ++ [task], callers := s.callers + 1,
                 pushed := s.pushed ++ [task] }
  | callerNotify {s callers workers} : s.callers = callers + 1 →
      NotifyOne s.workers workers →
      PoolStep s .silent { s with callers, workers }
  /-- `wait_to_enqueue` from inside a running task, at any time. -/
  | taskEnqueue {s w current} (task : τ) : s.workers w = .running current →
      PoolStep s (.push task)
        { s with tasks := s.tasks ++ [task], pushed := s.pushed ++ [task],
                 workers := Function.update s.workers w (.notifying current) }
  | taskNotify {s w current workers} : s.workers w = .notifying current →
      NotifyOne (Function.update s.workers w (.running current)) workers →
      PoolStep s .silent { s with workers }
  /-- The predicate holds and `tasks` is not empty. -/
  | take {s w task rest} : s.workers w = .ready → s.tasks = task :: rest →
      PoolStep s (.take w task)
        { s with tasks := rest, workers := Function.update s.workers w (.running task),
                 taken := s.taken ++ [task] }
  /-- The predicate fails: the worker releases the lock and blocks. -/
  | wait {s w} : s.workers w = .ready → s.tasks = [] → s.stopped = false →
      PoolStep s .silent { s with workers := Function.update s.workers w .waiting }
  /-- The predicate holds, `tasks` is empty and `stopped` is set. -/
  | exit {s w} : s.workers w = .ready → s.tasks = [] → s.stopped = true →
      PoolStep s .silent { s with workers := Function.update s.workers w .exited }
  | spuriousWakeup {s w} : s.workers w = .waiting →
      PoolStep s .silent { s with workers := Function.update s.workers w .ready }
  | finish {s w task} : s.workers w = .running task →
      PoolStep s (.finish w task)
        { s with workers := Function.update s.workers w .ready,
                 finished := s.finished ++ [task] }
  | stop {s} : s.destructor = .before →
      PoolStep s .silent { s with stopped := true, destructor := .notifying }
  | stopNotify {s} : s.destructor = .notifying →
      PoolStep s .silent { s with workers := notifyAll s.workers, destructor := .joining }

/-- All interleavings of a pool of `n` workers. -/
def poolSystem (n : Nat) (τ : Type*) : TransitionSystem (PoolState n τ) where
  init s := s = .constructed n τ
  step s t := ∃ event, PoolStep s event t

/-! ## Notifications -/

section Notify

variable {n : Nat} {τ : Type*} {workers workers' : Fin n → Worker τ} {w : Fin n}

theorem held_notifyAll (workers : Fin n → Worker τ) (w : Fin n) :
    (notifyAll workers w).held = (workers w).held := by
  unfold notifyAll
  cases workers w <;> rfl

theorem notifyAll_ne_waiting (workers : Fin n → Worker τ) (w : Fin n) :
    notifyAll workers w ≠ .waiting := by
  unfold notifyAll
  cases workers w <;> nofun

theorem notifyAll_eq_exited (h : notifyAll workers w = .exited) : workers w = .exited := by
  unfold notifyAll at h
  cases eq : workers w <;> rw [eq] at h <;> first | rfl | cases h

theorem notifyAll_awake (h : (workers w).Awake ∨ workers w = .waiting) :
    (notifyAll workers w).Awake := by
  unfold notifyAll
  cases eq : workers w <;> rw [eq] at h <;> simp_all [Worker.Awake]

/-- What `notify_one` can do to a worker. -/
theorem NotifyOne.cases_at (notify : NotifyOne workers workers') (w : Fin n) :
    workers' w = workers w ∨ (workers w = .waiting ∧ workers' w = .ready) := by
  cases notify with
  | nobody _ => exact .inl rfl
  | @wake v blocked =>
      by_cases same : w = v
      · subst same
        exact .inr ⟨blocked, Function.update_self ..⟩
      · exact .inl (Function.update_of_ne same ..)

theorem NotifyOne.held (notify : NotifyOne workers workers') (w : Fin n) :
    (workers' w).held = (workers w).held := by
  rcases notify.cases_at w with same | ⟨before, after⟩
  · rw [same]
  · rw [before, after]
    rfl

theorem NotifyOne.awake (notify : NotifyOne workers workers') (h : (workers w).Awake) :
    (workers' w).Awake := by
  rcases notify.cases_at w with same | ⟨before, after⟩
  · rwa [same]
  · rw [after]
    trivial

theorem NotifyOne.eq_exited (notify : NotifyOne workers workers') (h : workers' w = .exited) :
    workers w = .exited := by
  rcases notify.cases_at w with same | ⟨-, after⟩
  · rwa [← same]
  · cases after.symm.trans h

theorem NotifyOne.eq_waiting (notify : NotifyOne workers workers') (h : workers' w = .waiting) :
    workers w = .waiting := by
  rcases notify.cases_at w with same | ⟨-, after⟩
  · rwa [← same]
  · cases after.symm.trans h

/-- With a blocked worker a notification is never lost. -/
theorem NotifyOne.exists_awake (notify : NotifyOne workers workers')
    (blocked : workers w = .waiting) : ∃ v, (workers' v).Awake := by
  cases notify with
  | nobody none => exact absurd blocked (none w)
  | @wake v _ =>
      refine ⟨v, ?_⟩
      rw [Function.update_self]
      trivial

end Notify

/-! ## What an event says of its step -/

section Events

variable {n : Nat} {τ : Type*} {s t : PoolState n τ} {event : PoolEvent n τ} {task : τ}

theorem PoolStep.pushed (step : PoolStep s event t) : t.pushed = s.pushed ++ event.pushes := by
  cases step <;> first | rfl | exact (List.append_nil _).symm

theorem PoolStep.taken (step : PoolStep s event t) : t.taken = s.taken ++ event.takes := by
  cases step <;> first | rfl | exact (List.append_nil _).symm

theorem held_update_of_eq {workers : Fin n → Worker τ} {w : Fin n} {x : Worker τ}
    (same : x.held = (workers w).held) (v : Fin n) :
    (Function.update workers w x v).held = (workers v).held := by
  by_cases here : v = w
  · subst here
    rw [Function.update_self, same]
  · rw [Function.update_of_ne here]

/-- Only a worker that takes or finishes a task changes what it holds. -/
theorem PoolStep.held_of_push (step : PoolStep s (.push task) t) (v : Fin n) :
    (t.workers v).held = (s.workers v).held := by
  cases step with
  | enqueue => rfl
  | taskEnqueue _ running => exact held_update_of_eq (by rw [running]; rfl) v

theorem PoolStep.held_of_silent (step : PoolStep s .silent t) (v : Fin n) :
    (t.workers v).held = (s.workers v).held := by
  cases step with
  | callerNotify _ notify => exact notify.held v
  | taskNotify notifying notify =>
      rw [notify.held v]
      exact held_update_of_eq (by rw [notifying]; rfl) v
  | wait ready | exit ready => exact held_update_of_eq (by rw [ready]; rfl) v
  | spuriousWakeup blocked => exact held_update_of_eq (by rw [blocked]; rfl) v
  | stop => rfl
  | stopNotify => exact held_notifyAll s.workers v

theorem PoolStep.held_of_take {w : Fin n} (step : PoolStep s (.take w task) t) :
    (s.workers w).held = 0 ∧ (t.workers w).held = {task} ∧
      ∀ v, v ≠ w → (t.workers v).held = (s.workers v).held := by
  cases step with
  | take ready _ =>
      refine ⟨by rw [ready]; rfl, by dsimp only; rw [Function.update_self]; rfl, ?_⟩
      intro v other
      exact congrArg Worker.held (Function.update_of_ne other ..)

theorem PoolStep.held_of_finish {w : Fin n} (step : PoolStep s (.finish w task) t) :
    ∀ v, v ≠ w → (t.workers v).held = (s.workers v).held := by
  cases step with
  | finish _ =>
      intro v other
      exact congrArg Worker.held (Function.update_of_ne other ..)

end Events

/-! ## The invariant -/

/-- What holds between any two atomic steps. -/
structure PoolInv {n : Nat} {τ : Type*} (s : PoolState n τ) : Prop where
  /-- Tasks leave the queue in the order they entered it. -/
  fifo : s.pushed = s.taken ++ s.tasks
  /-- A task that was taken is finished or held by one worker. -/
  accounted : (s.taken : Multiset τ) = s.finished + ∑ w, (s.workers w).held
  stopping : s.stopped = true ↔ s.destructor ≠ .before
  exited_stopped : ∀ w, s.workers w = .exited → s.stopped = true
  /-- Somebody will look at a queue that is not empty. -/
  live : s.tasks ≠ [] →
    (∃ w, (s.workers w).Awake) ∨ (0 < s.callers ∧ ∃ w, s.workers w = .waiting)
  /-- After `stopped` is set workers block only until `notify_all`. -/
  woken : s.stopped = true → ∀ w, s.workers w = .waiting → s.destructor = .notifying

section Invariant

variable {n : Nat} {τ : Type*} {s t : PoolState n τ} {event : PoolEvent n τ}

theorem sum_held_update (workers : Fin n → Worker τ) (w : Fin n) (x : Worker τ) :
    ∑ v, (Function.update workers w x v).held + (workers w).held =
      ∑ v, (workers v).held + x.held := by
  have others : ∀ v ∈ Finset.univ.erase w,
      (Function.update workers w x v).held = (workers v).held := fun v member => by
    rw [Function.update_of_ne (Finset.ne_of_mem_erase member)]
  rw [← Finset.sum_erase_add _ _ (Finset.mem_univ w), Finset.sum_congr rfl others,
    Function.update_self, add_right_comm, Finset.sum_erase_add _ _ (Finset.mem_univ w)]

/-- A worker that changes its place without taking or finishing a task. -/
theorem sum_held_update_of_eq {workers : Fin n → Worker τ} {w : Fin n} {x : Worker τ}
    (same : (workers w).held = x.held) :
    ∑ v, (Function.update workers w x v).held = ∑ v, (workers v).held := by
  have both := sum_held_update workers w x
  rwa [same, add_right_cancel_iff] at both

theorem PoolInv.constructed : PoolInv (PoolState.constructed n τ) where
  fifo := rfl
  accounted := by simp [PoolState.constructed, Worker.held]
  stopping := by simp [PoolState.constructed]
  exited_stopped _ gone := by cases gone
  live nonempty := absurd rfl nonempty
  woken stopped := by cases stopped

theorem PoolInv.step_fifo (inv : PoolInv s) (step : PoolStep s event t) :
    t.pushed = t.taken ++ t.tasks := by
  cases step with
  | enqueue task _ | taskEnqueue task _ => simp only [inv.fifo, List.append_assoc]
  | take _ queued => simp only [inv.fifo, queued, List.append_assoc, List.singleton_append]
  | _ => exact inv.fifo

theorem PoolInv.step_accounted (inv : PoolInv s) (step : PoolStep s event t) :
    (t.taken : Multiset τ) = t.finished + ∑ w, (t.workers w).held := by
  have accounted := inv.accounted
  cases step with
  | enqueue | stop => exact accounted
  | callerNotify _ notify => simpa only [Finset.sum_congr rfl fun v _ => notify.held v]
  | taskEnqueue _ running => rwa [sum_held_update_of_eq (by rw [running]; rfl)]
  | taskNotify notifying notify =>
      rw [Finset.sum_congr rfl fun v _ => notify.held v]
      rwa [sum_held_update_of_eq (by rw [notifying]; rfl)]
  | @take w task rest ready _ =>
      have moved := sum_held_update s.workers w (.running task)
      rw [ready, Worker.held_ready, add_zero, Worker.held_running] at moved
      dsimp only
      rw [moved, ← add_assoc, ← accounted, ← Multiset.coe_add, Multiset.coe_singleton]
  | wait ready | exit ready => rwa [sum_held_update_of_eq (by rw [ready]; rfl)]
  | spuriousWakeup blocked => rwa [sum_held_update_of_eq (by rw [blocked]; rfl)]
  | @finish w task running =>
      have moved := sum_held_update s.workers w .ready
      rw [running, Worker.held_ready, add_zero, Worker.held_running] at moved
      dsimp only
      rw [accounted, ← moved, ← Multiset.coe_add, Multiset.coe_singleton, ← add_assoc,
        add_right_comm]
  | stopNotify => simpa only [Finset.sum_congr rfl fun v _ => held_notifyAll s.workers v]

theorem PoolInv.step_stopping (inv : PoolInv s) (step : PoolStep s event t) :
    t.stopped = true ↔ t.destructor ≠ .before := by
  cases step with
  | stop => simp
  | stopNotify notifying =>
      have stopped := inv.stopping.mpr (by rw [notifying]; nofun)
      simp only [stopped, ne_eq, reduceCtorEq, not_false_eq_true]
  | _ => exact inv.stopping

/-- A worker found at a place no step moved it to was there before. -/
theorem eq_of_update {workers : Fin n → Worker τ} {w v : Fin n} {x place : Worker τ}
    (found : Function.update workers w x v = place) (other : x ≠ place) : workers v = place := by
  by_cases same : v = w
  · subst same
    rw [Function.update_self] at found
    exact absurd found other
  · rwa [Function.update_of_ne same] at found

theorem PoolInv.step_exited (inv : PoolInv s) (step : PoolStep s event t) :
    ∀ w, t.workers w = .exited → t.stopped = true := by
  intro v gone
  cases step with
  | enqueue => exact inv.exited_stopped v gone
  | callerNotify _ notify => exact inv.exited_stopped v (notify.eq_exited gone)
  | taskNotify _ notify =>
      exact inv.exited_stopped v (eq_of_update (notify.eq_exited gone) nofun)
  | taskEnqueue | take | wait | spuriousWakeup | finish =>
      exact inv.exited_stopped v (eq_of_update gone nofun)
  | exit _ _ stopped => exact stopped
  | stop => rfl
  | stopNotify => exact inv.exited_stopped v (notifyAll_eq_exited gone)

theorem PoolInv.step_woken (inv : PoolInv s) (step : PoolStep s event t) :
    t.stopped = true → ∀ w, t.workers w = .waiting → t.destructor = .notifying := by
  intro stopped v blocked
  cases step with
  | enqueue => exact inv.woken stopped v blocked
  | callerNotify _ notify => exact inv.woken stopped v (notify.eq_waiting blocked)
  | taskNotify _ notify =>
      exact inv.woken stopped v (eq_of_update (notify.eq_waiting blocked) nofun)
  | taskEnqueue | take | exit | spuriousWakeup | finish =>
      exact inv.woken stopped v (eq_of_update blocked nofun)
  | wait _ _ running => cases running.symm.trans stopped
  | stop => rfl
  | stopNotify => exact absurd blocked (notifyAll_ne_waiting s.workers v)

/-- A worker that a step leaves awake looks at the queue again by itself. -/
theorem awake_update (workers : Fin n → Worker τ) (w : Fin n) {x : Worker τ} (awake : x.Awake) :
    ∃ v, (Function.update workers w x v).Awake :=
  ⟨w, by rwa [Function.update_self]⟩

theorem PoolInv.step_live (positive : 0 < n) (inv : PoolInv s) (step : PoolStep s event t) :
    t.tasks ≠ [] →
      (∃ w, (t.workers w).Awake) ∨ (0 < t.callers ∧ ∃ w, t.workers w = .waiting) := by
  intro nonempty
  cases step with
  | enqueue task alive =>
      -- before destruction no worker has left the loop, so any worker will do
      have present : ∀ w, s.workers w ≠ .exited := fun w gone =>
        inv.stopping.mp (inv.exited_stopped w gone) alive
      cases eq : s.workers ⟨0, positive⟩ with
      | exited => exact absurd eq (present _)
      | waiting => exact .inr ⟨Nat.succ_pos _, _, eq⟩
      | _ => exact .inl ⟨⟨0, positive⟩, by rw [eq]; trivial⟩
  | callerNotify _ notify =>
      rcases inv.live nonempty with ⟨w, awake⟩ | ⟨-, w, blocked⟩
      · exact .inl ⟨w, notify.awake awake⟩
      · exact .inl (notify.exists_awake blocked)
  | taskEnqueue | take | spuriousWakeup | finish => exact .inl (awake_update _ _ trivial)
  | @taskNotify w current _ _ notify =>
      obtain ⟨v, awake⟩ := awake_update s.workers w (x := .running current) trivial
      exact .inl ⟨v, notify.awake awake⟩
  | wait _ empty | exit _ empty => exact absurd empty nonempty
  | stop => exact inv.live nonempty
  | stopNotify =>
      rcases inv.live nonempty with ⟨w, awake⟩ | ⟨-, w, blocked⟩
      · exact .inl ⟨w, notifyAll_awake (.inl awake)⟩
      · exact .inl ⟨w, notifyAll_awake (.inr blocked)⟩

theorem PoolInv.step (positive : 0 < n) (inv : PoolInv s) (step : PoolStep s event t) :
    PoolInv t where
  fifo := inv.step_fifo step
  accounted := inv.step_accounted step
  stopping := inv.step_stopping step
  exited_stopped := inv.step_exited step
  live := inv.step_live positive step
  woken := inv.step_woken step

theorem PoolInv.of_reachable (positive : 0 < n) (reached : (poolSystem n τ).Reachable s) :
    PoolInv s := by
  apply reached.invariant
  · intro s initial
    subst initial
    exact .constructed
  · intro s t inv moves
    rcases moves with ⟨event, step⟩
    exact inv.step positive step

end Invariant

/-! ## The contract -/

/-- A push whose `notify_one` is still to come, or a `stopped` whose
`notify_all` is. -/
def PoolState.NotificationPending {n : Nat} {τ : Type*} (s : PoolState n τ) : Prop :=
  0 < s.callers ∨ (∃ w task, s.workers w = .notifying task) ∨ s.destructor = .notifying

/-- Every worker that has not left its loop is blocked in the wait. -/
def PoolState.AllBlocked {n : Nat} {τ : Type*} (s : PoolState n τ) : Prop :=
  ∀ w, s.workers w ≠ .exited → s.workers w = .waiting

/-- What users of the pool rely on. -/
structure PoolContract {n : Nat} {τ : Type*} (s : PoolState n τ) : Prop where
  /-- The `k`-th task taken is the `k`-th task pushed. -/
  taken_in_order : s.taken <+: s.pushed
  /-- When the last worker has left, everything pushed has been run once. -/
  ran_all : (∀ w, s.workers w = .exited) → s.tasks = [] ∧ s.finished.Perm s.pushed
  /-- A task in the queue is never forgotten. -/
  no_forgotten_task : s.tasks ≠ [] → s.AllBlocked → s.NotificationPending
  /-- A blocked worker is never left behind by the destructor. -/
  no_forgotten_stop : s.stopped = true → (∃ w, s.workers w = .waiting) → s.AllBlocked →
    s.NotificationPending

theorem PoolInv.contract {n : Nat} {τ : Type*} {s : PoolState n τ} (inv : PoolInv s) :
    PoolContract s where
  taken_in_order := ⟨s.tasks, inv.fifo.symm⟩
  ran_all gone := by
    have empty : s.tasks = [] := by
      by_contra nonempty
      rcases inv.live nonempty with ⟨w, awake⟩ | ⟨-, w, blocked⟩
      · rw [gone w] at awake
        exact awake
      · cases (gone w).symm.trans blocked
    have accounted := inv.accounted
    simp only [gone, Worker.held, Finset.sum_const_zero, add_zero, Multiset.coe_eq_coe]
      at accounted
    refine ⟨empty, ?_⟩
    rw [inv.fifo, empty, List.append_nil]
    exact accounted.symm
  no_forgotten_task nonempty blocked := by
    rcases inv.live nonempty with ⟨w, awake⟩ | ⟨calling, -⟩
    · cases eq : s.workers w with
      | exited =>
          rw [eq] at awake
          exact awake.elim
      | _ =>
          have waiting := blocked w (by rw [eq]; nofun)
          rw [waiting] at awake
          exact awake.elim
    · exact .inl calling
  no_forgotten_stop stopped waiting _ := by
    obtain ⟨w, waiting⟩ := waiting
    exact .inr (.inr (inv.woken stopped w waiting))

/-- **The contract of the thread pool.** It holds in every state that any
interleaving of `wait_to_enqueue`, of the workers, of spurious wake-ups and of
the destructor can reach, for every number of workers. -/
theorem threadPool_contract {n : Nat} {τ : Type*} (positive : 0 < n) {s : PoolState n τ}
    (reached : (poolSystem n τ).Reachable s) : PoolContract s :=
  (PoolInv.of_reachable positive reached).contract

/-- One worker, blocked, and a task pushed from outside: the contract holds
because the notification is still to come. -/
theorem threadPool_contract_of_one_push :
    PoolContract (⟨[7], false, fun _ => .waiting, 1, .before, [7], [], []⟩ : PoolState 1 Nat) := by
  refine threadPool_contract (n := 1) (by decide) ?_
  have blocked : (poolSystem 1 Nat).Reachable
      { PoolState.constructed 1 Nat with
        workers := Function.update (fun _ => .ready) 0 .waiting } :=
    (TransitionSystem.Reachable.start rfl).next ⟨_, .wait (w := 0) rfl rfl rfl⟩
  have pushed := blocked.next ⟨_, .enqueue 7 rfl⟩
  have only : Function.update (fun _ => Worker.ready) (0 : Fin 1) (Worker.waiting : Worker Nat) =
      fun _ => .waiting := by
    funext w
    rw [Subsingleton.elim w 0, Function.update_self]
  rw [only] at pushed
  exact pushed

end Ahttpd

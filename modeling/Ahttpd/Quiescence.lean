import Ahttpd.Basis.Termination
import Ahttpd.Delivery
import Mathlib.Algebra.Order.BigOperators.Group.Finset

/-!
# Everything comes to an end

A thread pool is left to itself: nobody pushes a task, and a worker wakes up
only when it is notified. Every step then lowers `PoolState.budget`, and where
no step goes on all tasks have been run, and the workers of a pool that is being
destroyed have left their loop (`pool_drains`).

The same holds of a pool that delivers requests, together with the write queue
of their connection. A state that no step leaves is `Finished`: every request
has been taken, every response has been queued whole, and every message has been
written. So whatever the interleaving is, no run goes on for ever and none gets
stuck before (`deliveries_finish`).
-/

namespace Ahttpd

open Basis

theorem ne_concat {α : Type*} (l : List α) (a : α) : l ≠ l ++ [a] :=
  fun same => List.cons_ne_nil a [] (List.self_eq_append_right.mp same)

/-! ## The pool -/

/-- What a worker can do by itself before it blocks. A push inside a task owes
its notification, and the worker that it wakes. -/
def Worker.steps {τ : Type*} : Worker τ → Nat
  | .ready => 1
  | .running _ => 2
  | .notifying _ => 4
  | .waiting | .exited => 0

section Steps

variable {τ : Type*}

@[simp] theorem Worker.steps_ready : (Worker.ready : Worker τ).steps = 1 := rfl

@[simp] theorem Worker.steps_running (task : τ) : (Worker.running task).steps = 2 := rfl

@[simp] theorem Worker.steps_notifying (task : τ) : (Worker.notifying task).steps = 4 := rfl

@[simp] theorem Worker.steps_waiting : (Worker.waiting : Worker τ).steps = 0 := rfl

@[simp] theorem Worker.steps_exited : (Worker.exited : Worker τ).steps = 0 := rfl

end Steps

/-- A `notify_all` that is still to come may wake every worker. -/
def Destructor.steps (n : Nat) : Destructor → Nat
  | .notifying => n + 1
  | .before | .joining => 0

/-- The steps left to a pool whose tasks bring `cost` steps of their own. -/
def PoolState.budget {n : Nat} {τ : Type*} (cost : τ → Nat) (s : PoolState n τ) : Nat :=
  (s.tasks.map (cost · + 2)).sum + ∑ w, (s.workers w).steps + 2 * s.callers +
    s.destructor.steps n

/-- A worker leaves the wait without a notification. -/
def SpuriousWakeup {n : Nat} {τ : Type*} (s t : PoolState n τ) : Prop :=
  ∃ w, s.workers w = .waiting ∧ t = { s with workers := Function.update s.workers w .ready }

/-- Nothing is pushed, the destructor is not called, and whoever wakes up has
been notified. -/
structure PoolUndisturbed {n : Nat} {τ : Type*} (s t : PoolState n τ) : Prop where
  noPush : t.pushed = s.pushed
  kept : s.destructor = .before → t.destructor = .before
  notified : ¬SpuriousWakeup s t

/-- What an event adds to the budget. -/
def PoolEvent.gains {n : Nat} {τ : Type*} (cost : τ → Nat) : PoolEvent n τ → Nat
  | .push task => cost task + 4
  | .take _ _ | .finish _ _ | .silent => 0

/-- What an event takes off the budget. -/
def PoolEvent.spends {n : Nat} {τ : Type*} (cost : τ → Nat) : PoolEvent n τ → Nat
  | .take _ task => cost task + 1
  | .finish _ _ | .silent => 1
  | .push _ => 0

section Pool

variable {n : Nat} {τ : Type*} {s t : PoolState n τ} {event : PoolEvent n τ}
  {workers workers' : Fin n → Worker τ}

/-- What a spurious wake-up leaves as it was. -/
theorem SpuriousWakeup.same (spurious : SpuriousWakeup s t) :
    t.pushed = s.pushed ∧ t.taken = s.taken ∧ t.finished = s.finished ∧ t.callers = s.callers := by
  rcases spurious with ⟨w, -, rfl⟩
  exact ⟨rfl, rfl, rfl, rfl⟩

theorem SpuriousWakeup.worker (spurious : SpuriousWakeup s t) (v : Fin n) :
    t.workers v = s.workers v ∨ (s.workers v = .waiting ∧ t.workers v = .ready) := by
  rcases spurious with ⟨w, blocked, rfl⟩
  by_cases here : v = w
  · subst here
    exact .inr ⟨blocked, Function.update_self ..⟩
  · exact .inl (Function.update_of_ne here ..)

theorem SpuriousWakeup.irrefl (s : PoolState n τ) : ¬SpuriousWakeup s s := by
  intro spurious
  rcases spurious with ⟨w, blocked, same⟩
  have ready : s.workers w = .ready :=
    (congrArg (fun u => u.workers w) same).trans (Function.update_self ..)
  cases blocked.symm.trans ready

theorem exists_notifyOne (workers : Fin n → Worker τ) : ∃ workers', NotifyOne workers workers' := by
  by_cases none : ∀ w, workers w ≠ .waiting
  · exact ⟨_, .nobody none⟩
  · obtain ⟨w, blocked⟩ := not_forall_not.mp none
    exact ⟨_, .wake blocked⟩

theorem sum_steps_update (workers : Fin n → Worker τ) (w : Fin n) (x : Worker τ) :
    ∑ v, (Function.update workers w x v).steps + (workers w).steps =
      ∑ v, (workers v).steps + x.steps := by
  have others : ∀ v ∈ Finset.univ.erase w,
      (Function.update workers w x v).steps = (workers v).steps := fun v member => by
    rw [Function.update_of_ne (Finset.ne_of_mem_erase member)]
  rw [← Finset.sum_erase_add _ _ (Finset.mem_univ w), Finset.sum_congr rfl others,
    Function.update_self, Nat.add_right_comm, Finset.sum_erase_add _ _ (Finset.mem_univ w)]

theorem NotifyOne.steps (notify : NotifyOne workers workers') :
    ∑ v, (workers' v).steps ≤ ∑ v, (workers v).steps + 1 := by
  cases notify with
  | nobody _ => exact Nat.le_succ _
  | @wake w blocked =>
      have moved := sum_steps_update workers w .ready
      rw [blocked] at moved
      exact Nat.le_of_eq moved

theorem sum_steps_notifyAll_le (workers : Fin n → Worker τ) :
    ∑ v, (notifyAll workers v).steps ≤ ∑ v, (workers v).steps + n := by
  have each : ∀ v ∈ Finset.univ, (notifyAll workers v).steps ≤ (workers v).steps + 1 := by
    intro v _
    unfold notifyAll
    cases workers v with
    | waiting => exact Nat.le_refl 1
    | _ => exact Nat.le_succ _
  refine (Finset.sum_le_sum each).trans ?_
  rw [Finset.sum_add_distrib, Finset.sum_const, Finset.card_univ, Fintype.card_fin, smul_eq_mul,
    Nat.mul_one]

/-- What a step does to the budget. -/
theorem PoolStep.budget (cost : τ → Nat) (step : PoolStep s event t)
    (kept : s.destructor = .before → t.destructor = .before) (notified : ¬SpuriousWakeup s t) :
    t.budget cost + event.spends cost ≤ s.budget cost + event.gains cost := by
  cases step with
  | enqueue task _ =>
      simp only [PoolState.budget, PoolEvent.spends, PoolEvent.gains, List.map_append,
        List.map_singleton, List.sum_append, List.sum_singleton]
      omega
  | @callerNotify callers workers isCallers notify =>
      have woken := notify.steps
      simp only [PoolState.budget, PoolEvent.spends, PoolEvent.gains, isCallers]
      omega
  | @taskEnqueue w current task running =>
      have moved := sum_steps_update s.workers w (.notifying current)
      rw [running, Worker.steps_running, Worker.steps_notifying] at moved
      simp only [PoolState.budget, PoolEvent.spends, PoolEvent.gains, List.map_append,
        List.map_singleton, List.sum_append, List.sum_singleton]
      omega
  | @taskNotify w current workers notifying notify =>
      have moved := sum_steps_update s.workers w (.running current)
      have woken := notify.steps
      rw [notifying, Worker.steps_notifying, Worker.steps_running] at moved
      simp only [PoolState.budget, PoolEvent.spends, PoolEvent.gains]
      omega
  | @take w task rest ready queued =>
      have moved := sum_steps_update s.workers w (.running task)
      rw [ready, Worker.steps_ready, Worker.steps_running] at moved
      simp only [PoolState.budget, PoolEvent.spends, PoolEvent.gains, queued, List.map_cons,
        List.sum_cons]
      omega
  | @wait w ready =>
      have moved := sum_steps_update s.workers w .waiting
      rw [ready, Worker.steps_ready, Worker.steps_waiting] at moved
      simp only [PoolState.budget, PoolEvent.spends, PoolEvent.gains]
      omega
  | @exit w ready =>
      have moved := sum_steps_update s.workers w .exited
      rw [ready, Worker.steps_ready, Worker.steps_exited] at moved
      simp only [PoolState.budget, PoolEvent.spends, PoolEvent.gains]
      omega
  | spuriousWakeup blocked => exact absurd ⟨_, blocked, rfl⟩ notified
  | @finish w task running =>
      have moved := sum_steps_update s.workers w .ready
      rw [running, Worker.steps_running, Worker.steps_ready] at moved
      simp only [PoolState.budget, PoolEvent.spends, PoolEvent.gains]
      omega
  | stop before => cases kept before
  | stopNotify notifying =>
      have woken := sum_steps_notifyAll_le s.workers
      simp only [PoolState.budget, PoolEvent.spends, PoolEvent.gains, notifying, Destructor.steps]
      omega

/-! ### Where a pool can go on -/

theorem PoolUndisturbed.of_pool (noPush : t.pushed = s.pushed)
    (same : t.destructor = s.destructor) (notified : ¬SpuriousWakeup s t) : PoolUndisturbed s t :=
  ⟨noPush, fun before => same.trans before, notified⟩

/-- A worker at the head of its loop can always go on. -/
theorem exists_step_of_ready {w : Fin n} (ready : s.workers w = .ready) :
    ∃ event t, PoolStep s event t ∧ PoolUndisturbed s t ∧
      (event = .silent ∨ ∃ task, event = .take w task) := by
  have moves {x : Worker τ} (other : x ≠ .ready) : ¬SpuriousWakeup s
      { s with workers := Function.update s.workers w x } := by
    intro spurious
    rcases spurious.worker w with same | ⟨waiting, -⟩
    · have isReady : Function.update s.workers w x w = .ready := same.trans ready
      rw [Function.update_self] at isReady
      exact other isReady
    · cases waiting.symm.trans ready
  cases queued : s.tasks with
  | cons task rest =>
      exact ⟨_, _, .take ready queued, .of_pool rfl rfl fun spurious =>
        ne_concat _ _ spurious.same.2.1.symm, .inr ⟨task, rfl⟩⟩
  | nil =>
      cases stopped : s.stopped with
      | true => exact ⟨_, _, .exit ready queued stopped, .of_pool rfl rfl (moves nofun), .inl rfl⟩
      | false => exact ⟨_, _, .wait ready queued stopped, .of_pool rfl rfl (moves nofun), .inl rfl⟩

/-- A task that has pushed can always notify. -/
theorem exists_step_of_notifying {w : Fin n} {task : τ} (notifying : s.workers w = .notifying task) :
    ∃ t, PoolStep s .silent t ∧ PoolUndisturbed s t := by
  obtain ⟨workers, notify⟩ := exists_notifyOne (Function.update s.workers w (.running task))
  refine ⟨_, .taskNotify notifying notify, .of_pool rfl rfl fun spurious => ?_⟩
  have moved := notify.cases_at w
  rw [Function.update_self] at moved
  rcases moved with running | ⟨waits, -⟩
  · rcases spurious.worker w with same | ⟨waiting, -⟩
    · cases running.symm.trans (same.trans notifying)
    · cases waiting.symm.trans notifying
  · cases waits

/-- A caller that has pushed can always notify. -/
theorem exists_step_of_callers (calling : s.callers ≠ 0) :
    ∃ t, PoolStep s .silent t ∧ PoolUndisturbed s t := by
  obtain ⟨callers, isCallers⟩ := Nat.exists_eq_succ_of_ne_zero calling
  obtain ⟨workers, notify⟩ := exists_notifyOne s.workers
  refine ⟨_, .callerNotify isCallers notify, .of_pool rfl rfl fun spurious => ?_⟩
  have same := spurious.same.2.2.2
  dsimp only at same
  omega

/-- A pool that is left to itself. -/
def undisturbedPool (n : Nat) (τ : Type*) : TransitionSystem (PoolState n τ) :=
  (poolSystem n τ).restrict PoolUndisturbed

theorem pool_falls (n : Nat) (τ : Type*) :
    (undisturbedPool n τ).Falls (PoolState.budget fun _ => 0) := by
  intro s t step
  rcases step with ⟨⟨event, step⟩, undisturbed⟩
  have lower := step.budget (fun _ => 0) undisturbed.kept undisturbed.notified
  cases event with
  | push task => exact absurd (undisturbed.noPush.symm.trans step.pushed) (ne_concat _ _)
  | take | finish | silent =>
      simp only [PoolEvent.spends, PoolEvent.gains] at lower
      omega

/-- Everything has been run, once, and the workers are blocked, or have left if
the pool is being destroyed. -/
structure Drained (s : PoolState n τ) : Prop where
  ran : s.finished.Perm s.pushed
  noTasks : s.tasks = []
  blocked : s.stopped = false → ∀ w, s.workers w = .waiting
  left : s.stopped = true → ∀ w, s.workers w = .exited

theorem drained_of_stuck (inv : PoolInv s) (stuck : (undisturbedPool n τ).Stuck s) :
    Drained s := by
  have noCallers : s.callers = 0 := by
    by_contra calling
    obtain ⟨t, step, undisturbed⟩ := exists_step_of_callers calling
    exact stuck t ⟨⟨_, step⟩, undisturbed⟩
  have idle : ∀ w, s.workers w = .waiting ∨ s.workers w = .exited := by
    intro w
    cases place : s.workers w with
    | waiting => exact .inl rfl
    | exited => exact .inr rfl
    | ready =>
        obtain ⟨event, t, step, undisturbed, -⟩ := exists_step_of_ready place
        exact (stuck t ⟨⟨_, step⟩, undisturbed⟩).elim
    | notifying task =>
        obtain ⟨t, step, undisturbed⟩ := exists_step_of_notifying place
        exact (stuck t ⟨⟨_, step⟩, undisturbed⟩).elim
    | running task =>
        exact (stuck _ ⟨⟨_, .finish place⟩, .of_pool rfl rfl fun spurious =>
          ne_concat _ _ spurious.same.2.2.1.symm⟩).elim
  have noTasks : s.tasks = [] := by
    by_contra nonempty
    rcases inv.live nonempty with ⟨w, awake⟩ | ⟨calling, -⟩
    · rcases idle w with place | place
      · rw [place] at awake
        exact awake
      · rw [place] at awake
        exact awake
    · exact absurd noCallers (Nat.pos_iff_ne_zero.mp calling)
  have held : ∀ w, (s.workers w).held = 0 := by
    intro w
    rcases idle w with place | place
    · rw [place]
      rfl
    · rw [place]
      rfl
  refine ⟨?_, noTasks, fun goesOn w => ?_, fun stopped w => ?_⟩
  · have accounted := inv.accounted
    simp only [held, Finset.sum_const_zero, add_zero, Multiset.coe_eq_coe] at accounted
    rw [inv.fifo, noTasks, List.append_nil]
    exact accounted.symm
  · rcases idle w with place | gone
    · exact place
    · cases goesOn.symm.trans (inv.exited_stopped w gone)
  · rcases idle w with place | gone
    · have notifying := inv.woken stopped w place
      refine (stuck _ ⟨⟨_, .stopNotify notifying⟩, rfl, fun before => ?_, fun spurious => ?_⟩).elim
      · cases notifying.symm.trans before
      · rcases spurious with ⟨v, -, same⟩
        cases notifying.symm.trans (congrArg PoolState.destructor same).symm
    · exact gone

/-- **A pool drains.** From every state that any interleaving can reach, a pool
that is left to itself takes no more steps than its budget says. Where it cannot
go on, every task that was ever pushed has been run, once, and the threads that
`~ThreadPool` joins have ended; and there is such a run. -/
theorem pool_drains (positive : 0 < n) (reached : (poolSystem n τ).Reachable s) :
    (∀ k t, (undisturbedPool n τ).Run s k t → k ≤ s.budget fun _ => 0) ∧
      (∀ k t, (undisturbedPool n τ).Run s k t → (undisturbedPool n τ).Stuck t → Drained t) ∧
      ∃ k t, (undisturbedPool n τ).Run s k t ∧ Drained t := by
  have ends : ∀ k t, (undisturbedPool n τ).Run s k t → (undisturbedPool n τ).Stuck t →
      Drained t := by
    intro k t run stuck
    have reached' := run.invariant reached fun s t known step => known.next step.1
    exact drained_of_stuck (.of_reachable positive reached') stuck
  refine ⟨fun k t run => ?_, ends, ?_⟩
  · exact (Nat.le_add_right _ _).trans (run.length_le (pool_falls n τ))
  · obtain ⟨k, t, run, stuck⟩ := TransitionSystem.exists_stuck (pool_falls n τ) s
    exact ⟨k, t, run, ends k t run stuck⟩

/-- A pool of two workers with a task that is being destroyed. -/
theorem pool_drains_of_stopped : ∃ k t, (undisturbedPool 2 Nat).Run
    ⟨[7], true, fun _ => .ready, 1, .notifying, [7], [], []⟩ k t ∧ Drained t := by
  have pushed : (poolSystem 2 Nat).Reachable
      ⟨[7], false, fun _ => .ready, 1, .before, [7], [], []⟩ :=
    (TransitionSystem.Reachable.start rfl).next ⟨_, .enqueue 7 rfl⟩
  exact (pool_drains (by decide) (pushed.next ⟨_, .stop rfl⟩)).2.2

end Pool

/-! ## The write queue -/

/-- The steps that an activity is away from its end. -/
def Activity.steps {ω : Type*} : Activity ω → Nat
  | .doFront => 1
  | .dequeue _ => 2
  | .handler _ => 3
  | .running _ => 4
  | .call _ => 5

/-- An entry that is not started owes a `call`. -/
def OpQueue.steps {ω : Type*} (queue : OpQueue ω) : Nat :=
  (queue.map fun entry => if entry.2 then 0 else 5).sum

def QueueState.budget {ω : Type*} (s : QueueState ω) : Nat :=
  s.queue.steps + (s.activities.map Activity.steps).sum

section Queue

variable {ω : Type*} {s t : QueueState ω} {queue queue' : OpQueue ω}

theorem OpQueue.steps_tail_le (queue : OpQueue ω) : queue.dequeue.steps ≤ queue.steps := by
  cases queue with
  | nil => exact Nat.le_refl _
  | cons entry queue => exact Nat.le_add_left _ _

theorem OpQueue.steps_doFront {called : Option ω} (section' : queue.doFront = (queue', called)) :
    queue'.steps + (if called.isSome then 5 else 0) = queue.steps := by
  match queue, section' with
  | [], section' =>
      rcases Prod.mk.inj section' with ⟨rfl, rfl⟩
      rfl
  | (func, true) :: rest, section' =>
      rcases Prod.mk.inj section' with ⟨rfl, rfl⟩
      rfl
  | (func, false) :: rest, section' =>
      rcases Prod.mk.inj section' with ⟨rfl, rfl⟩
      simp [OpQueue.steps, Nat.add_comm]

/-- Every step but a push lowers the budget of the queue. -/
theorem QueueStep.budget (step : QueueStep s t) (noPush : t.pushed = s.pushed) :
    t.budget < s.budget := by
  cases step with
  | enqueue func => simp at noPush
  | doNothing section' =>
      have same := OpQueue.steps_doFront section'
      simp only [Option.isSome_none, Bool.false_eq_true, if_false, Nat.add_zero] at same
      simp only [QueueState.budget, Multiset.map_cons, Multiset.sum_cons, Activity.steps, same]
      omega
  | doStart section' =>
      have started := OpQueue.steps_doFront section'
      simp only [Option.isSome_some, if_true] at started
      simp only [QueueState.budget, Multiset.map_cons, Multiset.sum_cons, Activity.steps]
      omega
  | call | complete | handlerReturn =>
      simp only [QueueState.budget, Multiset.map_cons, Multiset.sum_cons, Activity.steps]
      omega
  | @dequeue queue =>
      have shorter := queue.steps_tail_le
      simp only [QueueState.budget, Multiset.map_cons, Multiset.sum_cons, Activity.steps]
      omega

theorem QueueState.budget_enqueueWrite (s : QueueState ω) (func : ω) :
    (s.enqueueWrite func).budget = s.budget + 6 := by
  simp only [QueueState.budget, QueueState.enqueueWrite, OpQueue.enqueue, OpQueue.steps,
    List.map_append, List.map_singleton, List.sum_append, List.sum_singleton, Multiset.map_cons,
    Multiset.sum_cons, Activity.steps, Bool.false_eq_true, if_false]
  omega

/-- A queue that is not pushed to and cannot go on has written everything. -/
theorem QueueInv.written (inv : QueueInv s)
    (stuck : ∀ t, QueueStep s t → t.pushed ≠ s.pushed) :
    s.started = s.pushed ∧ s.returned = s.pushed := by
  cases inv with
  | idle done rest pending wake =>
      cases pending with
      | zero =>
          obtain rfl : rest = [] := by
            by_contra nonempty
            exact absurd (wake nonempty) (Nat.lt_irrefl 0)
          exact ⟨(List.append_nil done).symm, (List.append_nil done).symm⟩
      | succ pending =>
          rw [Multiset.replicate_succ] at stuck
          cases rest with
          | nil => exact (stuck _ (.doNothing rfl) rfl).elim
          | cons func rest => exact (stuck _ (.doStart rfl) rfl).elim
  | busy done func rest act pending carries =>
      cases act with
      | doFront => cases carries
      | call => exact (stuck _ .call rfl).elim
      | running => exact (stuck _ .complete rfl).elim
      | handler => exact (stuck _ .handlerReturn rfl).elim
      | dequeue => exact (stuck _ .dequeue rfl).elim

end Queue

/-! ## Deliveries -/

/-- The connection and the pool are left to themselves. -/
structure Undisturbed {handleRequest : RequestHandler} {n : Nat}
    (s t : DeliveryState handleRequest n) : Prop where
  kept : s.pool.destructor = .before → t.pool.destructor = .before
  noOthers : t.pool.pushed ≠ s.pool.pushed ++ [.other]
  notified : ¬SpuriousWakeup s.pool t.pool

/-- The steps that the messages of a job take: one to queue each of them, and
six to write it. -/
def Job.cost (handleRequest : RequestHandler) (job : Job) : Nat :=
  7 * (job.messages handleRequest).length

/-- An upper bound for the steps that are left. -/
def DeliveryState.budget {handleRequest : RequestHandler} {n : Nat}
    (s : DeliveryState handleRequest n) : Nat :=
  (s.arrivals.map fun req => (Job.deliver req).cost handleRequest + 5).sum +
    s.pool.budget (Job.cost handleRequest) +
    (s.deliveries.map fun d => 7 * d.left.length).sum + s.write.budget

/-- Everything has been delivered: every request has been taken, in order, every
response has been queued whole, and every message has been written. -/
structure Finished {handleRequest : RequestHandler} {n : Nat} (requests : List Request)
    (s : DeliveryState handleRequest n) : Prop where
  all : s.AllDelivered
  taken : s.pool.taken.filterMap Job.request? = requests
  whole : ∀ k job, s.pool.taken[k]? = some job → s.messagesOf k = job.messages handleRequest
  started : s.write.started = s.write.pushed
  returned : s.write.returned = s.write.pushed

section Deliveries

variable {handleRequest : RequestHandler} {n : Nat} {requests : List Request}
  {s t : DeliveryState handleRequest n}

/-- Every step lowers the budget. -/
theorem budget_lt_of_step (step : DeliveryStep s t) (undisturbed : Undisturbed s t) :
    t.budget < s.budget := by
  rcases undisturbed with ⟨kept, noOthers, notified⟩
  cases step with
  | arrive next push =>
      have pool := push.budget (Job.cost handleRequest) kept notified
      simp only [PoolEvent.spends, PoolEvent.gains] at pool
      simp only [DeliveryState.budget, next, List.map_cons, List.sum_cons]
      omega
  | otherPush push => exact absurd push.pushed noOthers
  | take taken =>
      have pool := taken.budget (Job.cost handleRequest) kept notified
      simp only [PoolEvent.spends, PoolEvent.gains] at pool
      simp only [DeliveryState.budget, List.map_append, List.map_singleton, List.sum_append,
        List.sum_singleton, Delivery.start_left]
      unfold Job.cost at pool ⊢
      omega
  | @asyncWrite w job d message left more _ found =>
      obtain ⟨before, after, split, -, set⟩ := exists_split found
      have next : (d.next more).left = left := rfl
      have fewer : ((s.deliveries.set (s.serving w) (d.next more)).map
          fun d => 7 * d.left.length).sum + 7 =
          (s.deliveries.map fun d => 7 * d.left.length).sum := by
        rw [set, split]
        simp only [List.map_append, List.map_cons, List.sum_append, List.sum_cons, more, next,
          List.length_cons]
        omega
      simp only [DeliveryState.budget, QueueState.budget_enqueueWrite]
      omega
  | finish finished =>
      have pool := finished.budget (Job.cost handleRequest) kept notified
      simp only [PoolEvent.spends, PoolEvent.gains] at pool
      simp only [DeliveryState.budget]
      omega
  | poolSilent silent =>
      have pool := silent.budget (Job.cost handleRequest) kept notified
      simp only [PoolEvent.spends, PoolEvent.gains] at pool
      simp only [DeliveryState.budget]
      omega
  | writeQueue moved noPush =>
      have queue := moved.budget noPush
      simp only [DeliveryState.budget]
      omega

/-! ## Where no step goes on -/

/-- A worker that runs a job has its delivery. -/
def Serving (s : DeliveryState handleRequest n) : Prop :=
  ∀ w job, (s.pool.workers w).held = {job} →
    ∃ d, s.deliveries[s.serving w]? = some d ∧ d.job = job

theorem Serving.step (serving : Serving s) (step : DeliveryStep s t) : Serving t := by
  intro v job holds
  cases step with
  | arrive _ push | otherPush push => exact serving v job ((push.held_of_push v).symm.trans holds)
  | poolSilent silent => exact serving v job ((silent.held_of_silent v).symm.trans holds)
  | writeQueue => exact serving v job holds
  | @take w taken pool step =>
      rcases step.held_of_take with ⟨-, holds', others⟩
      dsimp only at holds ⊢
      by_cases here : v = w
      · subst here
        obtain rfl := Multiset.singleton_inj.mp (holds'.symm.trans holds)
        refine ⟨.start taken, ?_, rfl⟩
        rw [Function.update_self, List.getElem?_append_right (Nat.le_refl _), Nat.sub_self]
        rfl
      · obtain ⟨d, found, isJob⟩ := serving v job ((others v here).symm.trans holds)
        refine ⟨d, ?_, isJob⟩
        rw [Function.update_of_ne here]
        exact (List.getElem?_append_left (List.getElem?_eq_some_iff.mp found).1).trans found
  | @asyncWrite w job' d message left more _ found =>
      obtain ⟨e, found', isJob⟩ := serving v job holds
      dsimp only
      rw [List.getElem?_set]
      by_cases here : s.serving w = s.serving v
      · rw [here] at found
        obtain rfl := Option.some.inj (found.symm.trans found')
        rw [if_pos here, if_pos (here ▸ (List.getElem?_eq_some_iff.mp found).1)]
        exact ⟨_, rfl, isJob⟩
      · rw [if_neg here]
        exact ⟨e, found', isJob⟩
  | @finish w task d pool step _ _ =>
      by_cases here : v = w
      · subst here
        cases step with
        | finish _ =>
            dsimp only at holds
            rw [Function.update_self] at holds
            exact absurd holds.symm (Multiset.singleton_ne_zero job)
      · exact serving v job ((step.held_of_finish v here).symm.trans holds)

theorem Serving.of_reachable (reached : (deliverySystem handleRequest requests n).Reachable s) :
    Serving s := by
  apply reached.invariant
  · intro s initial w job holds
    subst initial
    exact absurd holds.symm (Multiset.singleton_ne_zero job)
  · exact fun s t serving step => serving.step step

theorem Undisturbed.of_pool (pool : PoolUndisturbed s.pool t.pool) : Undisturbed s t :=
  ⟨pool.kept, pool.noPush ▸ ne_concat _ _, pool.notified⟩

theorem Undisturbed.of_same (same : t.pool = s.pool) : Undisturbed s t :=
  .of_pool (.of_pool (by rw [same]) (by rw [same]) (same ▸ SpuriousWakeup.irrefl _))

section Stuck

variable (stuck : ∀ t, DeliveryStep s t → ¬Undisturbed s t)

include stuck

theorem arrivals_of_stuck (alive : s.pool.destructor = .before) : s.arrivals = [] := by
  cases next : s.arrivals with
  | nil => rfl
  | cons req arrivals =>
      have push := PoolStep.enqueue (s := s.pool) (.deliver req) alive
      refine (stuck _ (.arrive next push) ⟨fun before => before, ?_, ?_⟩).elim
      · intro same
        cases List.singleton_inj.mp (List.append_cancel_left same)
      · exact fun spurious => ne_concat _ _ spurious.same.1.symm

theorem callers_of_stuck : s.pool.callers = 0 := by
  by_contra calling
  obtain ⟨pool, step, undisturbed⟩ := exists_step_of_callers calling
  exact stuck _ (.poolSilent step) (.of_pool undisturbed)

/-- A worker that could go on would. -/
theorem waiting_of_stuck (serving : Serving s) (present : ∀ w, s.pool.workers w ≠ .exited)
    (w : Fin n) : s.pool.workers w = .waiting := by
  cases place : s.pool.workers w with
  | waiting => rfl
  | exited => exact absurd place (present w)
  | ready =>
      obtain ⟨event, pool, step, undisturbed, rfl | ⟨job, rfl⟩⟩ := exists_step_of_ready place
      · exact (stuck _ (.poolSilent step) (.of_pool undisturbed)).elim
      · exact (stuck _ (.take step) (.of_pool undisturbed)).elim
  | notifying job =>
      obtain ⟨pool, step, undisturbed⟩ := exists_step_of_notifying place
      exact (stuck _ (.poolSilent step) (.of_pool undisturbed)).elim
  | running job =>
      obtain ⟨d, found, rfl⟩ := serving w job (by rw [place]; rfl)
      cases more : d.left with
      | cons message left => exact (stuck _ (.asyncWrite more place found) (.of_same rfl)).elim
      | nil =>
          refine (stuck _ (.finish (.finish place) found more) (.of_pool ?_)).elim
          exact .of_pool rfl rfl fun spurious => ne_concat _ _ spurious.same.2.2.1.symm

/-- **Nothing is left** where no step goes on. -/
theorem finished_of_stuck (positive : 0 < n)
    (reached : (deliverySystem handleRequest requests n).Reachable s)
    (alive : s.pool.destructor = .before) : Finished requests s := by
  have pool := PoolInv.of_reachable positive (pool_reachable reached)
  have present : ∀ w, s.pool.workers w ≠ .exited := fun w gone =>
    pool.stopping.mp (pool.exited_stopped w gone) alive
  have waiting := waiting_of_stuck stuck (.of_reachable reached) present
  have noTasks : s.pool.tasks = [] := by
    by_contra nonempty
    rcases pool.live nonempty with ⟨w, awake⟩ | ⟨calling, -⟩
    · rw [waiting w] at awake
      exact awake
    · exact absurd (callers_of_stuck stuck) (Nat.pos_iff_ne_zero.mp calling)
  have arrivals := arrivals_of_stuck stuck alive
  have idle : ∀ w, (s.pool.workers w).held = 0 := fun w => by rw [waiting w]; rfl
  have written := (write_queueInv reached).written fun write moved kept =>
    stuck _ (.writeQueue moved kept) (.of_same rfl)
  have arrived := (DeliveryInv.of_reachable reached).arrived
  rw [arrivals, pool.fifo, noTasks, List.append_nil, List.append_nil] at arrived
  exact ⟨⟨arrivals, noTasks, idle⟩, arrived, fun k job taken =>
    (deliveryContract_of_reachable positive reached).own_complete k job taken fun w _ => idle w,
    written.1, written.2⟩

end Stuck

/-- The runs in which the connection and the pool are left to themselves. -/
def undisturbedSystem (handleRequest : RequestHandler) (requests : List Request) (n : Nat) :
    TransitionSystem (DeliveryState handleRequest n) :=
  (deliverySystem handleRequest requests n).restrict Undisturbed

theorem undisturbed_falls (handleRequest : RequestHandler) (requests : List Request) (n : Nat) :
    (undisturbedSystem handleRequest requests n).Falls DeliveryState.budget :=
  fun _ _ step => budget_lt_of_step step.1 step.2

/-- **Deliveries finish.** From every state that any interleaving can reach, a
run that is left to itself takes no more steps than its budget says, and where
it cannot go on everything has been delivered; and there is such a run. -/
theorem deliveries_finish (positive : 0 < n)
    (reached : (deliverySystem handleRequest requests n).Reachable s)
    (alive : s.pool.destructor = .before) :
    (∀ k t, (undisturbedSystem handleRequest requests n).Run s k t → k ≤ s.budget) ∧
      (∀ k t, (undisturbedSystem handleRequest requests n).Run s k t →
        (undisturbedSystem handleRequest requests n).Stuck t → Finished requests t) ∧
      ∃ k t, (undisturbedSystem handleRequest requests n).Run s k t ∧ Finished requests t := by
  have ends : ∀ k t, (undisturbedSystem handleRequest requests n).Run s k t →
      (undisturbedSystem handleRequest requests n).Stuck t → Finished requests t := by
    intro k t run stuck
    obtain ⟨reached', alive'⟩ := run.invariant
      (P := fun t => (deliverySystem handleRequest requests n).Reachable t ∧
        t.pool.destructor = .before) ⟨reached, alive⟩ (fun s t known step =>
          ⟨known.1.next step.1, step.2.kept known.2⟩)
    exact finished_of_stuck (fun u step undisturbed => stuck u ⟨step, undisturbed⟩) positive
      reached' alive'
  refine ⟨fun k t run => ?_, ends, ?_⟩
  · exact (Nat.le_add_right _ _).trans (run.length_le (undisturbed_falls handleRequest requests n))
  · obtain ⟨k, t, run, stuck⟩ :=
      TransitionSystem.exists_stuck (undisturbed_falls handleRequest requests n) s
    exact ⟨k, t, run, ends k t run stuck⟩

end Deliveries

/-- Two requests and two workers. -/
theorem deliveries_finish_of_two :
    ∃ k t, (undisturbedSystem echoPath [pathRequest "/a", pathRequest "/b"] 2).Run
        ⟨[pathRequest "/a", pathRequest "/b"], .constructed 2 Job, [], fun _ => 0, .fresh⟩ k t ∧
      Finished [pathRequest "/a", pathRequest "/b"] t :=
  (deliveries_finish (by decide) (.start rfl) rfl).2.2

end Ahttpd

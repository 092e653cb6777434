import Ahttpd.Basis.Transition
import Mathlib.Data.Multiset.Filter
import Mathlib.Data.Multiset.Replicate

/-!
# The operation queues of a connection

`Connection` keeps one queue for reads and one for writes. Both run the same
code: `enqueue*` pushes a closure under the lock and calls `do*`; `do*` marks
an unstarted front as started under the lock and calls its closure after the
lock is released; the completion handler calls the user's handler and then
`dequeue*`, which pops under the lock and calls `do*` again. Every locked
section is one atomic step here, and any number of threads may hold steps they
still have to take.

* `QueueInv` is the invariant: either no operation is under way, or exactly the
  front entry is and exactly one activity carries it.
* `connection_queue_discipline` reads the contract of the queue off it.
-/

namespace Ahttpd

open Basis

/-- `read_queue_` and `write_queue_`: closures with their started flags. -/
abbrev OpQueue (ω : Type*) := List (ω × Bool)

namespace OpQueue

variable {ω : Type*}

/-- The locked section of `enqueueRead` and `enqueueWrite`. -/
def enqueue (queue : OpQueue ω) (func : ω) : OpQueue ω := queue ++ [(func, false)]

/-- The locked section of `dequeueRead` and `dequeueWrite`. -/
def dequeue (queue : OpQueue ω) : OpQueue ω := queue.tail

/-- The locked section of `doRead` and `doWrite`, with the closure that is
called once the lock is released. -/
def doFront : OpQueue ω → OpQueue ω × Option ω
  | [] => ([], none)
  | (func, true) :: rest => ((func, true) :: rest, none)
  | (func, false) :: rest => ((func, true) :: rest, some func)

end OpQueue

/-- What some thread, or the `io_service`, still has to do for a queue. -/
inductive Activity (ω : Type*)
  /-- A thread is about to enter the locked section of `do*`. -/
  | doFront
  /-- `do*` has left its locked section and is about to call `func`. -/
  | call (func : ω)
  /-- The asynchronous operation is running. -/
  | running (func : ω)
  /-- The operation has completed and its handler has not returned. -/
  | handler (func : ω)
  /-- The handler has returned and `dequeue*` is about to pop. -/
  | dequeue (func : ω)

namespace Activity

variable {ω : Type*}

/-- The started operation an activity belongs to. -/
def op? : Activity ω → Option ω
  | .doFront => none
  | .call func | .running func | .handler func | .dequeue func => some func

/-- The operation whose handler has returned but which is not popped yet. -/
def returned : Activity ω → List ω
  | .dequeue func => [func]
  | _ => []

end Activity

/-- One queue with the activities around it. The last three fields record the
order of the pushes, of the starts and of the returns of the handlers. -/
structure QueueState (ω : Type*) where
  queue : OpQueue ω
  activities : Multiset (Activity ω)
  pushed : List ω
  started : List ω
  returned : List ω

/-- A queue of a connection nobody has used yet. -/
def QueueState.fresh {ω : Type*} : QueueState ω := ⟨[], 0, [], [], []⟩

/-- One atomic step of some thread. -/
inductive QueueStep {ω : Type*} : QueueState ω → QueueState ω → Prop
  /-- Any thread, a running handler included, calls `async*`. -/
  | enqueue (func : ω) {queue acts pushed started returned} :
      QueueStep ⟨queue, acts, pushed, started, returned⟩
        ⟨queue.enqueue func, .doFront ::ₘ acts, pushed ++ [func], started, returned⟩
  /-- `do*` finds an empty queue or a started front and returns. -/
  | doNothing {queue queue' : OpQueue ω} {acts pushed started returned} :
      queue.doFront = (queue', none) →
      QueueStep ⟨queue, .doFront ::ₘ acts, pushed, started, returned⟩
        ⟨queue', acts, pushed, started, returned⟩
  /-- `do*` marks the front as started. -/
  | doStart {queue queue' : OpQueue ω} {func acts pushed started returned} :
      queue.doFront = (queue', some func) →
      QueueStep ⟨queue, .doFront ::ₘ acts, pushed, started, returned⟩
        ⟨queue', .call func ::ₘ acts, pushed, started ++ [func], returned⟩
  /-- `do*` calls the closure it took out. -/
  | call {queue func acts pushed started returned} :
      QueueStep ⟨queue, .call func ::ₘ acts, pushed, started, returned⟩
        ⟨queue, .running func ::ₘ acts, pushed, started, returned⟩
  /-- A running operation completes. -/
  | complete {queue func acts pushed started returned} :
      QueueStep ⟨queue, .running func ::ₘ acts, pushed, started, returned⟩
        ⟨queue, .handler func ::ₘ acts, pushed, started, returned⟩
  /-- The handler returns. -/
  | handlerReturn {queue func acts pushed started returned} :
      QueueStep ⟨queue, .handler func ::ₘ acts, pushed, started, returned⟩
        ⟨queue, .dequeue func ::ₘ acts, pushed, started, returned ++ [func]⟩
  /-- `dequeue*` pops and goes on to `do*`. -/
  | dequeue {queue : OpQueue ω} {func acts pushed started returned} :
      QueueStep ⟨queue, .dequeue func ::ₘ acts, pushed, started, returned⟩
        ⟨queue.dequeue, .doFront ::ₘ acts, pushed, started, returned⟩

/-! ## The invariant of one queue -/

/-- No operation is under way, or exactly the front is and one activity
carries it. Every other activity is a pending `do*`. -/
inductive QueueInv {ω : Type*} : QueueState ω → Prop
  | idle (done rest : List ω) (pending : Nat) :
      (rest ≠ [] → 0 < pending) →
      QueueInv ⟨rest.map (·, false), .replicate pending .doFront, done ++ rest, done, done⟩
  | busy (done : List ω) (func : ω) (rest : List ω) (act : Activity ω) (pending : Nat) :
      act.op? = some func →
      QueueInv ⟨(func, true) :: rest.map (·, false),
        act ::ₘ .replicate pending .doFront, done ++ func :: rest, done ++ [func],
        done ++ act.returned⟩

section Invariant

variable {ω : Type*} {s t : QueueState ω}

theorem cons_eq_replicate {a b : Activity ω} {acts : Multiset (Activity ω)} {n : Nat}
    (eq : a ::ₘ acts = .replicate n b) :
    a = b ∧ ∃ m, n = m + 1 ∧ acts = .replicate m b := by
  have member : a ∈ Multiset.replicate n b := eq ▸ Multiset.mem_cons_self a acts
  have same := Multiset.eq_of_mem_replicate member
  subst same
  cases n with
  | zero => simp at member
  | succ m =>
      rw [Multiset.replicate_succ, Multiset.cons_inj_right] at eq
      exact ⟨rfl, m, rfl, eq⟩

/-- Which activity a step takes out of a busy queue: the carrier of the front,
or one of the pending `do*`. -/
theorem cons_eq_cons_replicate {a b c : Activity ω} {acts : Multiset (Activity ω)} {n : Nat}
    (eq : a ::ₘ acts = b ::ₘ .replicate n c) :
    (a = b ∧ acts = .replicate n c) ∨
      (a = c ∧ ∃ m, n = m + 1 ∧ acts = b ::ₘ .replicate m c) := by
  rcases Multiset.cons_eq_cons.mp eq with ⟨rfl, rest⟩ | ⟨_, others, rest, replicated⟩
  · exact .inl ⟨rfl, rest⟩
  · obtain ⟨same, m, count, rfl⟩ := cons_eq_replicate replicated.symm
    exact .inr ⟨same, m, count, rest⟩

theorem QueueInv.fresh : QueueInv (QueueState.fresh : QueueState ω) := by
  simpa [QueueState.fresh] using QueueInv.idle (ω := ω) [] [] 0 (by simp)

theorem QueueInv.enqueue {queue : OpQueue ω} {acts pushed started returned} (func : ω)
    (inv : QueueInv ⟨queue, acts, pushed, started, returned⟩) :
    QueueInv ⟨queue.enqueue func, .doFront ::ₘ acts, pushed ++ [func], started, returned⟩ := by
  cases inv with
  | idle done rest pending wake =>
      simpa [OpQueue.enqueue, Multiset.replicate_succ] using
        QueueInv.idle _ (rest ++ [func]) (pending + 1) (by simp)
  | busy done front rest act pending carries =>
      rw [Multiset.cons_swap]
      simpa [OpQueue.enqueue, Multiset.replicate_succ] using
        QueueInv.busy done front (rest ++ [func]) act (pending + 1) carries

/-- A pending `do*` that is not lost: on an idle queue it starts the front, on
a busy or empty one it has nothing to do. -/
theorem QueueInv.doFront {queue queue' : OpQueue ω} {acts pushed started returned}
    {called : Option ω}
    (inv : QueueInv ⟨queue, .doFront ::ₘ acts, pushed, started, returned⟩)
    (section' : queue.doFront = (queue', called)) :
    match called with
    | none => QueueInv ⟨queue', acts, pushed, started, returned⟩
    | some func => QueueInv ⟨queue', .call func ::ₘ acts, pushed, started ++ [func], returned⟩ := by
  generalize eq : (⟨queue, .doFront ::ₘ acts, pushed, started, returned⟩ : QueueState ω) = s
    at inv
  cases inv with
  | idle done rest pending wake =>
      injection eq with queueEq actsEq pushedEq startedEq returnedEq
      subst queueEq pushedEq startedEq returnedEq
      obtain ⟨-, m, -, rfl⟩ := cons_eq_replicate actsEq
      cases rest with
      | nil =>
          rcases Prod.mk.inj section' with ⟨rfl, rfl⟩
          simpa using QueueInv.idle returned [] m (by simp)
      | cons func rest =>
          rcases Prod.mk.inj section' with ⟨rfl, rfl⟩
          simpa [Activity.returned] using QueueInv.busy returned func rest (.call func) m rfl
  | busy done front rest act pending carries =>
      injection eq with queueEq actsEq pushedEq startedEq returnedEq
      subst queueEq pushedEq startedEq returnedEq
      rcases cons_eq_cons_replicate actsEq with ⟨rfl, -⟩ | ⟨-, m, -, rfl⟩
      · cases carries
      · rcases Prod.mk.inj section' with ⟨rfl, rfl⟩
        exact QueueInv.busy done front rest act m carries

/-- A step that only moves the carrier of the front on. -/
theorem QueueInv.advance {queue : OpQueue ω} {acts pushed started returned} {func : ω}
    {act : Activity ω} (act' : Activity ω)
    (inv : QueueInv ⟨queue, act ::ₘ acts, pushed, started, returned⟩)
    (carries : act.op? = some func) (carries' : act'.op? = some func)
    (before : act.returned = []) :
    QueueInv ⟨queue, act' ::ₘ acts, pushed, started, returned ++ act'.returned⟩ := by
  generalize eq : (⟨queue, act ::ₘ acts, pushed, started, returned⟩ : QueueState ω) = s at inv
  cases inv with
  | idle done rest pending wake =>
      injection eq with queueEq actsEq pushedEq startedEq returnedEq
      obtain ⟨rfl, -⟩ := cons_eq_replicate actsEq
      cases carries
  | busy done front rest carrier pending carrierOp =>
      injection eq with queueEq actsEq pushedEq startedEq returnedEq
      subst queueEq pushedEq startedEq returnedEq
      rcases cons_eq_cons_replicate actsEq with ⟨rfl, rfl⟩ | ⟨rfl, -⟩
      · obtain rfl := Option.some.inj (carries.symm.trans carrierOp)
        rw [before, List.append_nil]
        exact QueueInv.busy done func rest act' pending carries'
      · cases carries

/-- `dequeue*` pops the operation whose handler has just returned and leaves a
pending `do*` for the new front. -/
theorem QueueInv.dequeue {queue : OpQueue ω} {acts pushed started returned} {func : ω}
    (inv : QueueInv ⟨queue, .dequeue func ::ₘ acts, pushed, started, returned⟩) :
    QueueInv ⟨queue.dequeue, .doFront ::ₘ acts, pushed, started, returned⟩ := by
  generalize eq : (⟨queue, .dequeue func ::ₘ acts, pushed, started, returned⟩ :
    QueueState ω) = s at inv
  cases inv with
  | idle done rest pending wake =>
      injection eq with queueEq actsEq pushedEq startedEq returnedEq
      cases (cons_eq_replicate actsEq).1
  | busy done front rest carrier pending carrierOp =>
      injection eq with queueEq actsEq pushedEq startedEq returnedEq
      subst queueEq pushedEq startedEq returnedEq
      rcases cons_eq_cons_replicate actsEq with ⟨rfl, rfl⟩ | ⟨impossible, -⟩
      · obtain rfl := Option.some.inj carrierOp
        simpa [OpQueue.dequeue, Activity.returned, Multiset.replicate_succ] using
          QueueInv.idle (done ++ [func]) rest (pending + 1) (by simp)
      · cases impossible

theorem QueueInv.step (inv : QueueInv s) (step : QueueStep s t) : QueueInv t := by
  cases step with
  | enqueue func => exact inv.enqueue func
  | doNothing section' => exact inv.doFront section'
  | doStart section' => exact inv.doFront section'
  | call => simpa [Activity.returned] using inv.advance (.running _) rfl rfl rfl
  | complete => simpa [Activity.returned] using inv.advance (.handler _) rfl rfl rfl
  | handlerReturn => exact inv.advance (.dequeue _) rfl rfl rfl
  | dequeue => exact inv.dequeue

end Invariant

/-! ## What the invariant says -/

/-- The contract of one operation queue. -/
structure QueueDiscipline {ω : Type*} (s : QueueState ω) : Prop where
  /-- At most one entry is started and not yet dequeued. -/
  flagged_le_one : s.queue.countP (·.2) ≤ 1
  /-- At most one activity carries a started operation. -/
  carried_le_one : (s.activities.filterMap Activity.op?).card ≤ 1
  /-- The `k`-th start is the start of the `k`-th push. -/
  started_in_order : s.started <+: s.pushed
  /-- An operation starts only once the handlers of all earlier ones have
  returned. -/
  started_after_return : ∀ t, QueueStep s t → t.started ≠ s.started → s.returned = s.started
  /-- Only the front carries the started flag. -/
  front_only : ∀ entry ∈ s.queue.tail, entry.2 = false
  /-- A queue with work has a started front or a pending `do*`. -/
  no_lost_wakeup : s.queue ≠ [] →
    (∃ func rest, s.queue = (func, true) :: rest) ∨ Activity.doFront ∈ s.activities

section Discipline

variable {ω : Type*} {s : QueueState ω}

theorem filterMap_replicate_doFront (n : Nat) :
    (Multiset.replicate n (Activity.doFront : Activity ω)).filterMap Activity.op? = 0 := by
  induction n with
  | zero => rfl
  | succ n ih =>
      rw [Multiset.replicate_succ, Multiset.filterMap_cons_none _ _ rfl, ih]

theorem countP_map_unstarted (rest : List ω) : (rest.map (·, false)).countP (·.2) = 0 := by
  induction rest with
  | nil => rfl
  | cons func rest ih => simp

/-- In an idle queue everything that was started has returned; in a busy one
no `do*` starts anything. -/
theorem QueueInv.started_after_return (inv : QueueInv s) {t : QueueState ω}
    (step : QueueStep s t) (starts : t.started ≠ s.started) : s.returned = s.started := by
  cases inv with
  | idle => rfl
  | busy done func rest act pending carries =>
      generalize eq : (⟨(func, true) :: rest.map (·, false),
        act ::ₘ .replicate pending .doFront, done ++ func :: rest, done ++ [func],
        done ++ act.returned⟩ : QueueState ω) = s at step
      cases step with
      | doStart section' =>
          injection eq with queueEq
          subst queueEq
          cases section'
      | _ =>
          injection eq with _ _ _ startedEq
          exact absurd startedEq.symm starts

theorem QueueInv.discipline (inv : QueueInv s) : QueueDiscipline s := by
  have returned : ∀ t, QueueStep s t → t.started ≠ s.started → s.returned = s.started :=
    fun t step starts => inv.started_after_return step starts
  cases inv with
  | idle done rest pending wake =>
      refine ⟨?_, ?_, List.prefix_append done rest, returned, ?_, ?_⟩
      · simp only [countP_map_unstarted, Nat.zero_le]
      · simp only [filterMap_replicate_doFront, Multiset.card_zero, Nat.zero_le]
      · intro entry member
        rcases List.mem_map.mp (List.mem_of_mem_tail member) with ⟨func, -, rfl⟩
        rfl
      · intro nonempty
        have positive := wake (fun isNil => nonempty (isNil ▸ rfl))
        exact .inr (Multiset.mem_replicate.mpr ⟨by omega, rfl⟩)
  | busy done func rest act pending carries =>
      refine ⟨?_, ?_, ⟨rest, by simp⟩, returned, ?_, ?_⟩
      · simp only [List.countP_cons, countP_map_unstarted, if_true, Nat.zero_add, Nat.le_refl]
      · rw [Multiset.filterMap_cons_some _ _ _ carries, filterMap_replicate_doFront]
        exact Nat.le_refl 1
      · intro entry member
        rcases List.mem_map.mp member with ⟨_, -, rfl⟩
        rfl
      · exact fun _ => .inl ⟨func, _, rfl⟩

/-- `dequeue*` never pops an empty queue. -/
theorem QueueInv.nonempty_of_dequeue (inv : QueueInv s) {func : ω}
    (pops : .dequeue func ∈ s.activities) : ∃ rest, s.queue = (func, true) :: rest := by
  cases inv with
  | idle done rest pending wake => cases Multiset.eq_of_mem_replicate pops
  | busy done front rest act pending carries =>
      change .dequeue func ∈ act ::ₘ .replicate pending .doFront at pops
      rcases Multiset.mem_cons.mp pops with rfl | waiting
      · cases carries
        exact ⟨_, rfl⟩
      · cases Multiset.eq_of_mem_replicate waiting

end Discipline

/-! ## The connection -/

/-- The two queues of a `Connection`. -/
structure ConnectionState (ω : Type*) where
  read : QueueState ω
  write : QueueState ω

/-- The queues have a mutex each, so a step moves one of them. -/
inductive ConnectionStep {ω : Type*} : ConnectionState ω → ConnectionState ω → Prop
  | read {c : ConnectionState ω} {t : QueueState ω} :
      QueueStep c.read t → ConnectionStep c { c with read := t }
  | write {c : ConnectionState ω} {t : QueueState ω} :
      QueueStep c.write t → ConnectionStep c { c with write := t }

/-- All interleavings of the threads that use one connection. -/
def connectionSystem (ω : Type*) : TransitionSystem (ConnectionState ω) where
  init c := c = ⟨.fresh, .fresh⟩
  step := ConnectionStep

theorem connection_queueInv {ω : Type*} {c : ConnectionState ω}
    (reached : (connectionSystem ω).Reachable c) : QueueInv c.read ∧ QueueInv c.write := by
  refine reached.invariant (P := fun c => QueueInv c.read ∧ QueueInv c.write) ?_ ?_
  · intro c initial
    subst initial
    exact ⟨.fresh, .fresh⟩
  · intro c d inv step
    cases step with
    | read step => exact ⟨inv.1.step step, inv.2⟩
    | write step => exact ⟨inv.1, inv.2.step step⟩

/-- **The queue discipline of a connection.** In every state any interleaving
of `asyncRead`, `asyncReadUntil`, `asyncWrite` and of completions can reach,
both queues keep their contract. -/
theorem connection_queue_discipline {ω : Type*} {c : ConnectionState ω}
    (reached : (connectionSystem ω).Reachable c) :
    QueueDiscipline c.read ∧ QueueDiscipline c.write :=
  ⟨(connection_queueInv reached).1.discipline, (connection_queueInv reached).2.discipline⟩

/-- The discipline after one `asyncRead` whose `doRead` has started it. -/
theorem connection_queue_discipline_of_one_read :
    QueueDiscipline (⟨[(7, true)], {.call 7}, [7], [7], []⟩ : QueueState Nat) ∧
      QueueDiscipline (QueueState.fresh : QueueState Nat) :=
  connection_queue_discipline (c := ⟨⟨[(7, true)], {.call 7}, [7], [7], []⟩, .fresh⟩)
    (((TransitionSystem.Reachable.start (T := connectionSystem Nat) rfl).next
      (.read (.enqueue 7))).next (.read (.doStart rfl)))

end Ahttpd

import Ahttpd.Waiting

/-!
# Many connections

A server has one pool and any number of connections, and the workers deliver
the requests of all of them. Seen from one connection the others are only work
that does not write to it (`ServerState.ofConnection`), so that every run of the
server is a run of the delivery of each connection (`connection_reachable`).
What has been proved of a single connection so holds of every one, whatever the
other clients do (`clients_are_served`).
-/

namespace Ahttpd

open Basis

/-! ## A pool under a map -/

def Worker.map {τ υ : Type*} (f : τ → υ) : Worker τ → Worker υ
  | .ready => .ready
  | .waiting => .waiting
  | .running task => .running (f task)
  | .notifying task => .notifying (f task)
  | .exited => .exited

def PoolState.map {n : Nat} {τ υ : Type*} (f : τ → υ) (s : PoolState n τ) : PoolState n υ where
  tasks := s.tasks.map f
  stopped := s.stopped
  workers w := (s.workers w).map f
  callers := s.callers
  destructor := s.destructor
  pushed := s.pushed.map f
  taken := s.taken.map f
  finished := s.finished.map f

def PoolEvent.map {n : Nat} {τ υ : Type*} (f : τ → υ) : PoolEvent n τ → PoolEvent n υ
  | .push task => .push (f task)
  | .take w task => .take w (f task)
  | .finish w task => .finish w (f task)
  | .silent => .silent

section Map

variable {n : Nat} {τ υ : Type*} {f : τ → υ} {s t : PoolState n τ} {event : PoolEvent n τ}
  {workers workers' : Fin n → Worker τ}

theorem map_update (workers : Fin n → Worker τ) (w : Fin n) (x : Worker τ) :
    (fun v => (Function.update workers w x v).map f) =
      Function.update (fun v => (workers v).map f) w (x.map f) := by
  funext v
  exact Function.apply_update (fun _ => Worker.map f) workers w x v

theorem map_notifyAll (workers : Fin n → Worker τ) :
    (fun v => (notifyAll workers v).map f) = notifyAll fun v => (workers v).map f := by
  funext v
  simp only [notifyAll]
  cases workers v <;> rfl

theorem NotifyOne.map (notify : NotifyOne workers workers') :
    NotifyOne (fun v => (workers v).map f) fun v => (workers' v).map f := by
  cases notify with
  | @wake w blocked =>
      rw [map_update]
      exact .wake (congrArg (Worker.map f) blocked)
  | nobody none =>
      refine .nobody fun w waiting => none w ?_
      cases isWorker : workers w <;> simp [isWorker, Worker.map] at waiting ⊢

/-- The pool does not look at its tasks. -/
theorem PoolStep.map (f : τ → υ) (step : PoolStep s event t) :
    PoolStep (s.map f) (event.map f) (t.map f) := by
  have workerOf {w : Fin n} {x : Worker τ} (isWorker : s.workers w = x) :
      (s.map f).workers w = x.map f := congrArg (Worker.map f) isWorker
  cases step with
  | enqueue task before =>
      have step := PoolStep.enqueue (s := s.map f) (f task) before
      simp only [PoolState.map, List.map_append, List.map_cons, List.map_nil]
      exact step
  | @callerNotify callers workers called notify => exact .callerNotify called notify.map
  | taskEnqueue task running =>
      have step := PoolStep.taskEnqueue (s := s.map f) (f task) (workerOf running)
      simp only [PoolState.map, List.map_append, List.map_cons, List.map_nil, map_update]
      exact step
  | @taskNotify w current workers notifying notify =>
      have notify' := notify.map (f := f)
      rw [map_update] at notify'
      exact .taskNotify (workerOf notifying) notify'
  | @take w task rest ready tasks =>
      have tasks' : (s.map f).tasks = f task :: rest.map f := congrArg (List.map f) tasks
      have step := PoolStep.take (workerOf ready) tasks'
      simp only [PoolState.map, List.map_append, List.map_cons, List.map_nil, map_update]
      exact step
  | wait ready tasks running =>
      have step := PoolStep.wait (workerOf ready) (congrArg (List.map f) tasks) running
      simp only [PoolState.map, map_update]
      exact step
  | exit ready tasks stopped =>
      have step := PoolStep.exit (workerOf ready) (congrArg (List.map f) tasks) stopped
      simp only [PoolState.map, map_update]
      exact step
  | spuriousWakeup waiting =>
      have step := PoolStep.spuriousWakeup (workerOf waiting)
      simp only [PoolState.map, map_update]
      exact step
  | finish running =>
      have step := PoolStep.finish (workerOf running)
      simp only [PoolState.map, List.map_append, List.map_cons, List.map_nil, map_update]
      exact step
  | stop before => exact .stop (s := s.map f) before
  | stopNotify notifying =>
      have step := PoolStep.stopNotify (s := s.map f) notifying
      simp only [PoolState.map, map_notifyAll]
      exact step

end Map

/-! ## The server -/

/-- A task of the pool: the delivery of a request of a connection, or other
work. -/
inductive ServerJob (C : Type*)
  | deliver (conn : C) (req : Request)
  | other

namespace ServerJob

variable {C : Type*}

/-- The connection that the job writes to. -/
def conn? : ServerJob C → Option C
  | deliver conn _ => some conn
  | other => none

def job : ServerJob C → Job
  | deliver _ req => .deliver req
  | other => .other

end ServerJob

/-- The readers of all connections, the pool and the write queues. Each delivery
has the connection that it writes to, if any. -/
structure ServerState (C : Type*) (handleRequest : RequestHandler) (n : Nat) where
  arrivals : C → List Request
  pool : PoolState n (ServerJob C)
  deliveries : List (Option C × Delivery handleRequest)
  serving : Fin n → Nat
  write : C → QueueState (Nat × Bytes)

/-- One atomic step of a reader, of the pool or of a write queue. -/
inductive ServerStep {C : Type*} [DecidableEq C] {handleRequest : RequestHandler} {n : Nat} :
    ServerState C handleRequest n → ServerState C handleRequest n → Prop
  | arrive {s conn req arrivals pool} : s.arrivals conn = req :: arrivals →
      PoolStep s.pool (.push (.deliver conn req)) pool →
      ServerStep s { s with arrivals := Function.update s.arrivals conn arrivals, pool }
  | otherPush {s pool} : PoolStep s.pool (.push .other) pool → ServerStep s { s with pool }
  | take {s w job pool} : PoolStep s.pool (.take w job) pool →
      ServerStep s
        { s with pool, deliveries := s.deliveries ++ [(job.conn?, .start job.job)],
                 serving := Function.update s.serving w s.deliveries.length }
  | asyncWrite {s w job conn d message left} (more : d.left = message :: left) :
      s.pool.workers w = .running job → s.deliveries[s.serving w]? = some (some conn, d) →
      ServerStep s
        { s with deliveries := s.deliveries.set (s.serving w) (some conn, d.next more),
                 write := Function.update s.write conn
                   ((s.write conn).enqueueWrite (s.serving w, message)) }
  | finish {s w job conn d pool} : PoolStep s.pool (.finish w job) pool →
      s.deliveries[s.serving w]? = some (conn, d) → d.left = [] → ServerStep s { s with pool }
  | poolSilent {s pool} : PoolStep s.pool .silent pool → ServerStep s { s with pool }
  | writeQueue {s conn write} : QueueStep (s.write conn) write →
      write.pushed = (s.write conn).pushed →
      ServerStep s { s with write := Function.update s.write conn write }

/-- All interleavings of a server with `n` workers to which these requests come. -/
def serverSystem {C : Type*} [DecidableEq C] (handleRequest : RequestHandler)
    (requests : C → List Request) (n : Nat) :
    TransitionSystem (ServerState C handleRequest n) where
  init s := s = ⟨requests, .constructed n (ServerJob C), [], fun _ => 0, fun _ => .fresh⟩
  step := ServerStep

section Connection

variable {C : Type*} [DecidableEq C] {handleRequest : RequestHandler} {n : Nat}

/-- A job as a connection sees it. -/
def ServerJob.ofConnection (c : C) : ServerJob C → Job
  | deliver conn req => if conn = c then .deliver req else .other
  | other => .other

/-- A delivery as a connection sees it. -/
def deliveryOf (c : C) (entry : Option C × Delivery handleRequest) : Delivery handleRequest :=
  if entry.1 = some c then entry.2 else .start .other

/-- The server as a connection sees it. -/
def ServerState.ofConnection (s : ServerState C handleRequest n) (c : C) :
    DeliveryState handleRequest n where
  arrivals := s.arrivals c
  pool := s.pool.map (ServerJob.ofConnection c)
  deliveries := s.deliveries.map (deliveryOf c)
  serving := s.serving
  write := s.write c

variable {s t : ServerState C handleRequest n} {requests : C → List Request}

theorem deliveryOf_start (c : C) (job : ServerJob C) :
    deliveryOf c (job.conn?, (Delivery.start job.job : Delivery handleRequest)) =
      .start (job.ofConnection c) := by
  cases job with
  | deliver conn req =>
      by_cases here : conn = c
      · simp [deliveryOf, ServerJob.ofConnection, ServerJob.conn?, ServerJob.job, here]
      · simp [deliveryOf, ServerJob.ofConnection, ServerJob.conn?, here]
  | other => rfl

/-- A step of the server is one of the delivery of a connection, or the
connection does not see it. -/
theorem connection_step (c : C) (step : ServerStep s t) :
    DeliveryStep (s.ofConnection c) (t.ofConnection c) ∨ t.ofConnection c = s.ofConnection c := by
  cases step with
  | @arrive conn req arrivals pool next push =>
      left
      have push' := push.map (ServerJob.ofConnection c)
      by_cases here : conn = c
      · subst here
        have isRequest : PoolEvent.map (ServerJob.ofConnection conn) (.push (.deliver conn req)) =
            (.push (.deliver req) : PoolEvent n Job) := by
          simp only [PoolEvent.map, ServerJob.ofConnection, if_true]
        rw [isRequest] at push'
        have step := DeliveryStep.arrive (s := s.ofConnection conn) next push'
        simp only [ServerState.ofConnection, Function.update_self]
        exact step
      · have isOther : PoolEvent.map (ServerJob.ofConnection c) (.push (.deliver conn req)) =
            (.push .other : PoolEvent n Job) := by
          simp only [PoolEvent.map, ServerJob.ofConnection, if_neg here]
        rw [isOther] at push'
        have step := DeliveryStep.otherPush (s := s.ofConnection c) push'
        simp only [ServerState.ofConnection, Function.update_of_ne (Ne.symm here)]
        exact step
  | otherPush push =>
      exact .inl (.otherPush (s := s.ofConnection c) (push.map (ServerJob.ofConnection c)))
  | @take w job pool step =>
      left
      have step' := DeliveryStep.take (s := s.ofConnection c)
        (step.map (ServerJob.ofConnection c))
      simp only [ServerState.ofConnection, List.map_append, List.map_cons, List.map_nil,
        deliveryOf_start]
      rw [ServerState.ofConnection, List.length_map] at step'
      exact step'
  | @asyncWrite w job conn d message left more running found =>
      have found' : (s.ofConnection c).deliveries[s.serving w]? =
          some (deliveryOf c (some conn, d)) := by
        rw [ServerState.ofConnection, List.getElem?_map, found]
        rfl
      by_cases here : conn = c
      · left
        subst here
        have mine (d : Delivery handleRequest) : deliveryOf conn (some conn, d) = d := if_pos rfl
        rw [mine] at found'
        have running' : (s.ofConnection conn).pool.workers w =
            .running (job.ofConnection conn) := congrArg (Worker.map _) running
        have step := DeliveryStep.asyncWrite (s := s.ofConnection conn) more running' found'
        simp only [ServerState.ofConnection, List.map_set, mine, Function.update_self]
        exact step
      · right
        have others (d : Delivery handleRequest) : deliveryOf c (some conn, d) = .start .other :=
          if_neg fun same => here (Option.some.inj same)
        rw [others] at found'
        rcases List.getElem?_eq_some_iff.mp found' with ⟨short, isOther⟩
        have same : (s.deliveries.set (s.serving w) (some conn, d.next more)).map (deliveryOf c) =
            s.deliveries.map (deliveryOf c) := by
          rw [List.map_set, others, ← isOther]
          exact List.set_getElem_self short
        simp only [ServerState.ofConnection, same, Function.update_of_ne (Ne.symm here)]
  | @finish w job conn d pool step found done =>
      left
      have found' : (s.ofConnection c).deliveries[s.serving w]? =
          some (deliveryOf c (conn, d)) := by
        rw [ServerState.ofConnection, List.getElem?_map, found]
        rfl
      have done' : (deliveryOf c (conn, d)).left = [] := by
        unfold deliveryOf
        split
        · exact done
        · rfl
      exact .finish (s := s.ofConnection c) (step.map (ServerJob.ofConnection c)) found' done'
  | poolSilent step =>
      exact .inl (.poolSilent (s := s.ofConnection c) (step.map (ServerJob.ofConnection c)))
  | @writeQueue conn write step kept =>
      by_cases here : conn = c
      · left
        subst here
        have step' := DeliveryStep.writeQueue (s := s.ofConnection conn) step kept
        simp only [ServerState.ofConnection, Function.update_self]
        exact step'
      · right
        simp only [ServerState.ofConnection, Function.update_of_ne (Ne.symm here)]

/-- **A connection of a server** runs as if it had the pool for itself and other
users pushed work that does not write. -/
theorem connection_reachable (reached : (serverSystem handleRequest requests n).Reachable s)
    (c : C) : (deliverySystem handleRequest (requests c) n).Reachable (s.ofConnection c) := by
  apply reached.image fun s => s.ofConnection c
  · intro s initial
    subst initial
    rfl
  · exact fun s t step => connection_step c step

/-- The client of this connection waits, whatever the others do. -/
def ClientWaits (c : C) (s t : ServerState C handleRequest n) : Prop :=
  Waits (s.ofConnection c) (t.ofConnection c)

theorem connection_waits {c : C}
    (reached : ((serverSystem handleRequest requests n).restrict (ClientWaits c)).Reachable s) :
    ((deliverySystem handleRequest (requests c) n).restrict Waits).Reachable
      (s.ofConnection c) := by
  apply reached.image fun s => s.ofConnection c
  · intro s initial
    subst initial
    rfl
  · intro s t step
    rcases connection_step c step.1 with moved | still
    · exact .inl ⟨moved, step.2⟩
    · exact .inr still

end Connection

/-! ## What a client gets -/

/-- All requests of a connection have come in, have been taken and have been
delivered. -/
structure DeliveryState.Answered {handleRequest : RequestHandler} {n : Nat}
    (s : DeliveryState handleRequest n) : Prop where
  arrived : s.arrivals = []
  taken : ∀ req, .deliver req ∉ s.pool.tasks
  delivered : ∀ w req, (s.pool.workers w).held ≠ {.deliver req}

section Answered

variable {handleRequest : RequestHandler} {n : Nat} {requests : List Request}
  {s : DeliveryState handleRequest n}

theorem left_of_answered {d : Delivery handleRequest} (inv : DeliveryInv requests s)
    (answered : s.Answered) (member : d ∈ s.deliveries) : d.left = [] := by
  by_contra unfinished
  rcases List.mem_iff_getElem?.mp member with ⟨k, found⟩
  obtain ⟨w, -, busy⟩ := inv.served k d found unfinished
  cases isJob : d.job with
  | deliver req => exact answered.delivered w req (isJob ▸ busy)
  | other => exact unfinished (Delivery.nothing_of_other (by rw [isJob]; rfl)).2

theorem DeliveryState.Answered.other (answered : s.Answered) {job : Job}
    (member : job ∈ s.pool.tasks) : job = .other := by
  cases job with
  | deliver req => exact absurd member (answered.taken req)
  | other => rfl

/-- A client that waits has its responses when its own requests are done. -/
theorem wire_of_waits (positive : 0 < n)
    (reached : ((deliverySystem handleRequest requests n).restrict Waits).Reachable s)
    (answered : s.Answered) : s.wire = requests.flatMap (complete handleRequest) := by
  have inv := DeliveryInv.of_reachable reached.of_restrict
  have pool := PoolInv.of_reachable positive (pool_reachable reached.of_restrict)
  have arrived := inv.arrived
  rw [answered.arrived, List.append_nil] at arrived
  rw [(WaitInv.of_reachable positive reached).wire, ← arrived, ← allWhole_ledger inv pool.fifo]
  apply Parcel.allSent_of_done
  intro p member
  rcases List.mem_append.mp member with delivery | task
  · rcases List.mem_map.mp delivery with ⟨d, isDelivery, rfl⟩
    rw [Delivery.parcel, left_of_answered inv answered isDelivery]
    rfl
  · rcases List.mem_map.mp task with ⟨job, isTask, rfl⟩
    rw [answered.other isTask]
    rfl

/-- And so has every client of a server with one worker. -/
theorem wire_of_alone (positive : 0 < n)
    (reached : ((deliverySystem handleRequest requests n).restrict Alone).Reachable s)
    (answered : s.Answered) : s.wire = requests.flatMap (complete handleRequest) := by
  have inv := DeliveryInv.of_reachable reached.of_restrict
  have pool := PoolInv.of_reachable positive (pool_reachable reached.of_restrict)
  have arrived := inv.arrived
  have nothing : s.pool.tasks.filterMap Job.request? = [] := by
    refine List.filterMap_eq_nil_iff.mpr fun job member => ?_
    rw [answered.other member]
    rfl
  rw [answered.arrived, pool.fifo, List.filterMap_append, nothing, List.append_nil,
    List.append_nil] at arrived
  rw [wire_eq (AloneInv.of_reachable reached),
    flatMap_queued_of_done fun d member => left_of_answered inv answered member, inv.jobs,
    flatMap_messages, arrived]

end Answered

section Clients

variable {C : Type*} [DecidableEq C] {handleRequest : RequestHandler} {n : Nat}

/-- All bytes queued on a connection. -/
def ServerState.wire (s : ServerState C handleRequest n) (c : C) : Bytes :=
  ((s.write c).pushed.map (·.2)).flatten

/-- What the `k`-th job taken has queued on a connection. -/
def ServerState.messagesOf (s : ServerState C handleRequest n) (c : C) (k : Nat) : List Bytes :=
  ((s.write c).pushed.filter (·.1 = k)).map (·.2)

/-- All requests of a client have come in, have been taken and have been
delivered. -/
structure ServerState.Answered (s : ServerState C handleRequest n) (c : C) : Prop where
  arrived : s.arrivals c = []
  taken : ∀ req, .deliver c req ∉ s.pool.tasks
  delivered : ∀ w req, (s.pool.workers w).held ≠ {.deliver c req}

/-- What every connection can rely on: only its own requests write to it, which
are taken in their order, each with its own messages. -/
structure Isolated (requests : List Request) (s : ServerState C handleRequest n) (c : C) :
    Prop where
  own : ∀ k message, (k, message) ∈ (s.write c).pushed →
    ∃ req, s.pool.taken[k]? = some (.deliver c req) ∧ message ∈ deliverRequest handleRequest req
  taken_in_order : s.pool.taken.filterMap (fun job => (job.ofConnection c).request?) <+: requests
  own_in_order : ∀ k req, s.pool.taken[k]? = some (.deliver c req) →
    s.messagesOf c k <+: deliverRequest handleRequest req
  own_complete : ∀ k req, s.pool.taken[k]? = some (.deliver c req) →
    (∀ w, s.serving w = k → (s.pool.workers w).held = 0) →
    s.messagesOf c k = deliverRequest handleRequest req
  sent_in_order : (s.write c).started <+: (s.write c).pushed

/-- The responses on a connection, whole and in the order of the requests. -/
structure ServedWhole (requests : List Request) (s : ServerState C handleRequest n) (c : C) :
    Prop where
  in_order : s.wire c <+: requests.flatMap (complete handleRequest)
  all_complete : s.Answered c → s.wire c = requests.flatMap (complete handleRequest)

variable {s : ServerState C handleRequest n} {requests : C → List Request} {c : C}

theorem ofConnection_eq_deliver {job : ServerJob C} {req : Request}
    (same : job.ofConnection c = .deliver req) : job = .deliver c req := by
  cases job with
  | other => cases same
  | deliver conn req' =>
      by_cases here : conn = c
      · rw [ServerJob.ofConnection, if_pos here] at same
        rw [here, Job.deliver.inj same]
      · rw [ServerJob.ofConnection, if_neg here] at same
        cases same

theorem held_map {τ υ : Type*} (f : τ → υ) (worker : Worker τ) :
    (worker.map f).held = worker.held.map f := by
  cases worker <;> rfl

theorem ServerState.Answered.ofConnection (answered : s.Answered c) :
    (s.ofConnection c).Answered where
  arrived := answered.arrived
  taken req member := by
    rcases List.mem_map.mp member with ⟨job, isTask, same⟩
    exact answered.taken req (ofConnection_eq_deliver same ▸ isTask)
  delivered w req holds := by
    have mapped : ((s.pool.workers w).held).map (ServerJob.ofConnection c) = {.deliver req} :=
      (held_map _ _).symm.trans holds
    obtain ⟨job, isHeld, same⟩ := Multiset.map_eq_singleton.mp mapped
    exact answered.delivered w req (ofConnection_eq_deliver same ▸ isHeld)

theorem isolated_of_reachable (positive : 0 < n)
    (reached : (serverSystem handleRequest requests n).Reachable s) (c : C) :
    Isolated (requests c) s c := by
  have contract := deliveryContract_of_reachable positive (connection_reachable reached c)
  have seen (k : Nat) : (s.ofConnection c).pool.taken[k]? =
      (s.pool.taken[k]?).map (ServerJob.ofConnection c) := List.getElem?_map
  have isTaken {k : Nat} {req : Request} (taken : s.pool.taken[k]? = some (.deliver c req)) :
      (s.ofConnection c).pool.taken[k]? = some (.deliver req) := by
    rw [seen, taken, Option.map_some, ServerJob.ofConnection, if_pos rfl]
  refine ⟨?_, ?_, ?_, ?_, contract.sent_in_order⟩
  · intro k message pushed
    have queued : message ∈ (s.ofConnection c).messagesOf k :=
      List.mem_map.mpr ⟨(k, message), List.mem_filter.mpr ⟨pushed, decide_eq_true rfl⟩, rfl⟩
    have short : k < (s.ofConnection c).pool.taken.length := by
      by_contra beyond
      rw [contract.nothing_else k (Nat.le_of_not_lt beyond)] at queued
      exact absurd queued List.not_mem_nil
    have taken := List.getElem?_eq_getElem short
    have own := (contract.own_in_order k _ taken).subset queued
    rw [seen] at taken
    obtain ⟨job, isJob, same⟩ := Option.map_eq_some_iff.mp taken
    rw [← same] at own
    cases isRequest : job.ofConnection c with
    | other =>
        rw [isRequest] at own
        exact absurd own List.not_mem_nil
    | deliver req =>
        rw [isRequest] at own
        exact ⟨req, isJob.trans (congrArg some (ofConnection_eq_deliver isRequest)), own⟩
  · have inOrder := contract.taken_in_order
    rw [ServerState.ofConnection, PoolState.map, List.filterMap_map] at inOrder
    exact inOrder
  · exact fun k req taken => contract.own_in_order k _ (isTaken taken)
  · intro k req taken returned
    refine contract.own_complete k _ (isTaken taken) fun w serving => ?_
    have free : ((s.ofConnection c).pool.workers w).held =
        ((s.pool.workers w).held).map (ServerJob.ofConnection c) := held_map _ _
    rw [free, returned w serving, Multiset.map_zero]

/-- **Many clients.** In every interleaving of any number of connections, only
the requests of a connection write to it, in order and completely. A client that
waits for the responses to its earlier requests gets whole responses in the
order of its requests, however many workers there are and whatever the other
clients do, and so does every client of a server with one worker. -/
theorem clients_are_served (handleRequest : RequestHandler) (requests : C → List Request)
    (positive : 0 < n) :
    (∀ s, (serverSystem handleRequest requests n).Reachable s →
      ∀ c, Isolated (requests c) s c) ∧
    (∀ c s, ((serverSystem handleRequest requests n).restrict (ClientWaits c)).Reachable s →
      ServedWhole (requests c) s c) ∧
    (n = 1 → ∀ s, (serverSystem handleRequest requests n).Reachable s →
      ∀ c, ServedWhole (requests c) s c) := by
  refine ⟨?_, ?_, ?_⟩
  · exact fun s reached c => isolated_of_reachable positive reached c
  · intro c s reached
    have waited := connection_waits reached
    exact ⟨(orderedDelivery_of_waits positive waited).in_order,
      fun answered => wire_of_waits positive waited answered.ofConnection⟩
  · intro one s reached c
    subst one
    have alone : ((deliverySystem handleRequest (requests c) 1).restrict Alone).Reachable
        (s.ofConnection c) :=
      (connection_reachable reached c).restrict fun s t step => alone_of_one_worker step
    exact ⟨(orderedDelivery_of_alone positive alone).in_order,
      fun answered => wire_of_alone positive alone answered.ofConnection⟩

/-- Two clients, each with one request. -/
def twoClients (c : Bool) : List Request :=
  [pathRequest (if c then "/a" else "/b")]

/-- Two workers serve two clients at once, and each client gets its response. -/
theorem clients_are_served_of_two :
    ∃ s, (serverSystem echoPath twoClients 2).Reachable s ∧
      ∀ c, s.Answered c ∧ Isolated (twoClients c) s c ∧ ServedWhole (twoClients c) s c := by
  have stays {s t : ServerState Bool echoPath 2} (same : t.arrivals = s.arrivals) :
      ∀ c, ClientWaits c s t :=
    fun c moved => absurd (congrFun same c) moved
  -- each client sends when it has sent nothing yet
  have first := (TransitionSystem.Reachable.start
    (T := (serverSystem echoPath twoClients 2).restrict
      fun s t => ∀ c, ClientWaits c s t) rfl).next
      ⟨.arrive rfl (.enqueue (ServerJob.deliver true (pathRequest "/a")) rfl), fun _ _ => rfl⟩
  have second := first.next
    ⟨.arrive rfl (.enqueue (ServerJob.deliver false (pathRequest "/b")) rfl),
      Bool.forall_bool.mpr ⟨fun _ => rfl, fun moved => absurd rfl moved⟩⟩
  have taken := (second.next ⟨.take (.take (w := 0) rfl rfl), stays rfl⟩).next
    ⟨.take (.take (w := 1) rfl rfl), stays rfl⟩
  have lines := (taken.next ⟨.asyncWrite (w := 0) echoStart_a rfl rfl, stays rfl⟩).next
    ⟨.asyncWrite (w := 1) echoStart_b rfl rfl, stays rfl⟩
  have blocks := (lines.next ⟨.asyncWrite (w := 1) rfl rfl rfl, stays rfl⟩).next
    ⟨.asyncWrite (w := 0) rfl rfl rfl, stays rfl⟩
  have finished := (blocks.next ⟨.finish (.finish (w := 0) rfl) rfl rfl, stays rfl⟩).next
    ⟨.finish (.finish (w := 1) rfl) rfl rfl, stays rfl⟩
  have served := clients_are_served echoPath twoClients (n := 2) (by decide)
  refine ⟨_, finished.of_restrict, fun c => ⟨?_, served.1 _ finished.of_restrict c, ?_⟩⟩
  · refine ⟨?_, fun req => List.not_mem_nil, ?_⟩
    · cases c <;> rfl
    · have idle (job : ServerJob Bool) : (0 : Multiset (ServerJob Bool)) ≠ {job} :=
        Multiset.zero_ne_singleton job
      exact Fin.forall_fin_two.mpr ⟨fun _ => idle _, fun _ => idle _⟩
  · exact served.2.1 c _ (finished.weaken fun s t waits => waits c)

end Clients

end Ahttpd

import Ahttpd.Connection
import Ahttpd.Request
import Ahttpd.Response
import Ahttpd.ThreadPool

/-!
# Delivering requests

`Server::handleRequest` pushes each request of a connection to the thread pool;
the worker that takes it runs `Server::deliverRequest`, which queues the
messages of the response on the connection one by one. Here the pool, its
workers and the write queue of one connection run together. The reader pushes
the requests in their order, since a read is not started before the handler of
the read before it has returned.

* `DeliveryContract` holds in every interleaving: requests are taken in order,
  and each response queues its own messages in order and completely.
* `OrderedDelivery`, that the responses are not mixed and come in the order of
  the requests, holds as long as no request is taken while another is being
  delivered, and so with one worker. With two workers it fails.
-/

namespace Ahttpd

open Basis

/-! ## One delivery -/

/-- What user code makes of a request, and what it does to the response. -/
abbrev RequestHandler := Request → Request × List ResponseOp

/-- A response that user code works through, and the messages it sends. -/
def Response.execAll (res : Response) : List ResponseOp → Response × List Bytes
  | [] => (res, [])
  | op :: ops =>
      let (res, sent) := res.exec op
      let (res, later) := res.execAll ops
      (res, sent ++ later)

/-- `Server::deliverRequest`: the messages it hands to `asyncWrite`, those of
the destructor of the response included. -/
def deliverRequest (handleRequest : RequestHandler) (req : Request) : List Bytes :=
  let res : Response := { connected := req.connected }
  let req := req.withPackage req.toPackage.discardConnection
  let (req, ops) := handleRequest req
  let (res, sent) := res.execAll ops
  let res :=
    if req.keepAlive && (res.getHeader (str "Connection")).isNone then
      res.withPackage (res.toPackage.addHeader (str "Connection") (str "keep-alive"))
    else res
  sent ++ res.destroy

/-- The whole response to a request. -/
def complete (handleRequest : RequestHandler) (req : Request) : Bytes :=
  (deliverRequest handleRequest req).flatten

/-! ## All interleavings -/

/-- A task of the pool: the delivery of a request of this connection, or work
that does not write to it. -/
inductive Job
  | deliver (req : Request)
  | other

namespace Job

def request? : Job → Option Request
  | deliver req => some req
  | other => none

def messages (handleRequest : RequestHandler) : Job → List Bytes
  | deliver req => deliverRequest handleRequest req
  | other => []

theorem messages_deliver (handleRequest : RequestHandler) (req : Request) :
    (deliver req).messages handleRequest = deliverRequest handleRequest req := rfl

theorem messages_of_other {handleRequest : RequestHandler} {job : Job}
    (isOther : job.request? = none) : job.messages handleRequest = [] := by
  cases job with
  | deliver req => cases isOther
  | other => rfl

end Job

/-- A job a worker has taken, with the messages it has queued so far. -/
structure Delivery (handleRequest : RequestHandler) where
  job : Job
  queued : List Bytes
  left : List Bytes
  whole : queued ++ left = job.messages handleRequest

namespace Delivery

variable {handleRequest : RequestHandler}

def start (job : Job) : Delivery handleRequest := ⟨job, [], job.messages handleRequest, rfl⟩

theorem start_left (job : Job) :
    (start job : Delivery handleRequest).left = job.messages handleRequest := rfl

/-- The delivery after its next `asyncWrite`. -/
def next (d : Delivery handleRequest) {message : Bytes} {left : List Bytes}
    (more : d.left = message :: left) : Delivery handleRequest where
  job := d.job
  queued := d.queued ++ [message]
  left := left
  whole := by rw [List.append_assoc, List.singleton_append, ← more, d.whole]

theorem queued_of_done {d : Delivery handleRequest} (done : d.left = []) :
    d.queued = d.job.messages handleRequest := by
  rw [← d.whole, done, List.append_nil]

theorem nothing_of_other {d : Delivery handleRequest} (isOther : d.job.request? = none) :
    d.queued = [] ∧ d.left = [] := by
  apply List.append_eq_nil_iff.mp
  rw [d.whole, Job.messages_of_other isOther]

end Delivery

/-- The reader of a connection, the pool and the write queue. `arrivals` are
the requests still to be parsed, `deliveries` what became of the jobs in the
order in which they were taken, and `serving` the delivery a worker runs.
Messages carry the number of the delivery that queued them. -/
structure DeliveryState (handleRequest : RequestHandler) (n : Nat) where
  arrivals : List Request
  pool : PoolState n Job
  deliveries : List (Delivery handleRequest)
  serving : Fin n → Nat
  write : QueueState (Nat × Bytes)

/-- The locked section of `enqueueWrite`, which leaves a pending `doWrite`. -/
def QueueState.enqueueWrite {ω : Type*} (s : QueueState ω) (func : ω) : QueueState ω :=
  ⟨s.queue.enqueue func, .doFront ::ₘ s.activities, s.pushed ++ [func], s.started, s.returned⟩

theorem QueueState.step_enqueueWrite {ω : Type*} (s : QueueState ω) (func : ω) :
    QueueStep s (s.enqueueWrite func) := .enqueue func

/-- One atomic step of the reader, of the pool or of the write queue. -/
inductive DeliveryStep {handleRequest : RequestHandler} {n : Nat} :
    DeliveryState handleRequest n → DeliveryState handleRequest n → Prop
  /-- The callback of `parseRequest` pushes the request. -/
  | arrive {s req arrivals pool} : s.arrivals = req :: arrivals →
      PoolStep s.pool (.push (.deliver req)) pool →
      DeliveryStep s { s with arrivals, pool }
  /-- Other users of the pool push their work. -/
  | otherPush {s pool} : PoolStep s.pool (.push .other) pool → DeliveryStep s { s with pool }
  /-- A worker takes a job and starts it. -/
  | take {s w job pool} : PoolStep s.pool (.take w job) pool →
      DeliveryStep s
        { s with pool, deliveries := s.deliveries ++ [.start job],
                 serving := Function.update s.serving w s.deliveries.length }
  /-- A worker queues the next message of its response. -/
  | asyncWrite {s w job d message left} (more : d.left = message :: left) :
      s.pool.workers w = .running job → s.deliveries[s.serving w]? = some d →
      DeliveryStep s
        { s with deliveries := s.deliveries.set (s.serving w) (d.next more),
                 write := s.write.enqueueWrite (s.serving w, message) }
  /-- A worker returns from a job whose response is destroyed. -/
  | finish {s w job d pool} : PoolStep s.pool (.finish w job) pool →
      s.deliveries[s.serving w]? = some d → d.left = [] →
      DeliveryStep s { s with pool }
  | poolSilent {s pool} : PoolStep s.pool .silent pool → DeliveryStep s { s with pool }
  /-- Any step of the write queue but a push. -/
  | writeQueue {s write} : QueueStep s.write write → write.pushed = s.write.pushed →
      DeliveryStep s { s with write }

/-- All interleavings of the delivery of `requests` by a pool of `n` workers. -/
def deliverySystem (handleRequest : RequestHandler) (requests : List Request) (n : Nat) :
    TransitionSystem (DeliveryState handleRequest n) where
  init s := s = ⟨requests, .constructed n Job, [], fun _ => 0, .fresh⟩
  step := DeliveryStep

/-- No request is taken in this step while another one is being delivered. -/
def Alone {handleRequest : RequestHandler} {n : Nat} (s t : DeliveryState handleRequest n) :
    Prop :=
  ∀ req, t.pool.taken = s.pool.taken ++ [.deliver req] →
    ∀ w other, (s.pool.workers w).held ≠ {.deliver other}

/-- What the `k`-th job taken has queued. -/
def DeliveryState.messagesOf {handleRequest : RequestHandler} {n : Nat}
    (s : DeliveryState handleRequest n) (k : Nat) : List Bytes :=
  (s.write.pushed.filter (·.1 = k)).map (·.2)

/-- All bytes queued on the connection. -/
def DeliveryState.wire {handleRequest : RequestHandler} {n : Nat}
    (s : DeliveryState handleRequest n) : Bytes :=
  (s.write.pushed.map (·.2)).flatten

/-- All requests have arrived and all workers have returned. -/
def DeliveryState.AllDelivered {handleRequest : RequestHandler} {n : Nat}
    (s : DeliveryState handleRequest n) : Prop :=
  s.arrivals = [] ∧ s.pool.tasks = [] ∧ ∀ w, (s.pool.workers w).held = 0

/-! ## What every interleaving keeps -/

/-- The messages a delivery has queued, by its number. -/
def queuedAt {handleRequest : RequestHandler} (deliveries : List (Delivery handleRequest))
    (k : Nat) : List Bytes :=
  (deliveries[k]?.map (·.queued)).getD []

/-- The ledger of the requests and of the messages. -/
structure DeliveryInv {handleRequest : RequestHandler} {n : Nat} (requests : List Request)
    (s : DeliveryState handleRequest n) : Prop where
  arrived : s.pool.pushed.filterMap Job.request? ++ s.arrivals = requests
  jobs : s.deliveries.map (·.job) = s.pool.taken
  queued : ∀ k, s.messagesOf k = queuedAt s.deliveries k
  /-- An unfinished delivery has a worker. -/
  served : ∀ k d, s.deliveries[k]? = some d → d.left ≠ [] →
    ∃ w, s.serving w = k ∧ (s.pool.workers w).held = {d.job}

section Invariant

variable {handleRequest : RequestHandler} {n : Nat} {requests : List Request}
  {s t : DeliveryState handleRequest n} {deliveries : List (Delivery handleRequest)}
  {d : Delivery handleRequest} {pool : PoolState n Job} {k : Nat}

theorem exists_split (found : deliveries[k]? = some d) :
    ∃ before after, deliveries = before ++ d :: after ∧ before.length = k ∧
      ∀ d', deliveries.set k d' = before ++ d' :: after := by
  rcases List.getElem?_eq_some_iff.mp found with ⟨short, rfl⟩
  have split : deliveries = deliveries.take k ++ deliveries[k] :: deliveries.drop (k + 1) := by
    rw [List.cons_getElem_drop_succ, List.take_append_drop]
  refine ⟨_, _, split, List.length_take_of_le (Nat.le_of_lt short), ?_⟩
  intro d'
  exact List.set_eq_take_append_cons_drop.trans (if_pos short)

theorem queuedAt_start (deliveries : List (Delivery handleRequest)) (job : Job) (k : Nat) :
    queuedAt (deliveries ++ [.start job]) k = queuedAt deliveries k := by
  unfold queuedAt
  rcases Nat.lt_trichotomy k deliveries.length with lt | rfl | gt
  · rw [List.getElem?_append_left lt]
  · rw [List.getElem?_append_right (Nat.le_refl _), Nat.sub_self,
      List.getElem?_eq_none (Nat.le_refl _)]
    rfl
  · have absent : deliveries[k]? = none := List.getElem?_eq_none (Nat.le_of_lt gt)
    have absent' : (deliveries ++ [Delivery.start job])[k]? = none := by
      apply List.getElem?_eq_none
      rw [List.length_append, List.length_singleton]
      exact gt
    rw [absent, absent']

theorem queuedAt_next {message : Bytes} {left : List Bytes} (found : deliveries[k]? = some d)
    (more : d.left = message :: left) (i : Nat) :
    queuedAt (deliveries.set k (d.next more)) i =
      queuedAt deliveries i ++ if k = i then [message] else [] := by
  rcases List.getElem?_eq_some_iff.mp found with ⟨short, isD⟩
  unfold queuedAt
  rw [List.getElem?_set]
  by_cases here : k = i
  · subst here
    rw [if_pos rfl, if_pos short, if_pos rfl, found]
    rfl
  · rw [if_neg here, if_neg here, List.append_nil]

theorem messagesOf_enqueueWrite (s : DeliveryState handleRequest n) (k i : Nat) (message : Bytes) :
    DeliveryState.messagesOf { s with write := s.write.enqueueWrite (k, message) } i =
      s.messagesOf i ++ if k = i then [message] else [] := by
  unfold DeliveryState.messagesOf QueueState.enqueueWrite
  rw [List.filter_append, List.map_append]
  by_cases here : k = i <;> simp [here]

/-- A delivery that is not finished keeps its worker in a step that leaves the
tasks of the workers alone. -/
theorem served_of_held (held : ∀ v, (pool.workers v).held = (s.pool.workers v).held)
    (served : ∃ w, s.serving w = k ∧ (s.pool.workers w).held = {d.job}) :
    ∃ w, s.serving w = k ∧ (pool.workers w).held = {d.job} := by
  obtain ⟨w, serving, holds⟩ := served
  exact ⟨w, serving, (held w).trans holds⟩

theorem DeliveryInv.initial :
    DeliveryInv requests
      (⟨requests, .constructed n Job, [], fun _ => 0, .fresh⟩ : DeliveryState handleRequest n) where
  arrived := rfl
  jobs := rfl
  queued _ := rfl
  served _ _ found := by cases found

theorem DeliveryInv.step_arrived (inv : DeliveryInv requests s) (step : DeliveryStep s t) :
    t.pool.pushed.filterMap Job.request? ++ t.arrivals = requests := by
  have arrived := inv.arrived
  cases step with
  | arrive next push =>
      rw [next] at arrived
      dsimp only
      rw [push.pushed, PoolEvent.pushes, List.filterMap_append, List.append_assoc]
      exact arrived
  | otherPush step =>
      have nothing : [Job.other].filterMap Job.request? = [] := rfl
      dsimp only
      rwa [step.pushed, PoolEvent.pushes, List.filterMap_append, nothing, List.append_nil]
  | take step | finish step _ _ | poolSilent step =>
      dsimp only
      rwa [step.pushed, PoolEvent.pushes, List.append_nil]
  | asyncWrite | writeQueue => exact arrived

theorem DeliveryInv.step_jobs (inv : DeliveryInv requests s) (step : DeliveryStep s t) :
    t.deliveries.map (·.job) = t.pool.taken := by
  have jobs := inv.jobs
  cases step with
  | take step =>
      dsimp only
      rw [step.taken, PoolEvent.takes, List.map_append, jobs]
      rfl
  | asyncWrite more _ found =>
      obtain ⟨before, after, split, -, set⟩ := exists_split found
      rw [split] at jobs
      dsimp only
      rw [set, ← jobs, List.map_append, List.map_append]
      rfl
  | arrive _ step | otherPush step | finish step _ _ | poolSilent step =>
      dsimp only
      rwa [step.taken, PoolEvent.takes, List.append_nil]
  | writeQueue => exact jobs

theorem DeliveryInv.step_queued (inv : DeliveryInv requests s) (step : DeliveryStep s t) (k : Nat) :
    t.messagesOf k = queuedAt t.deliveries k := by
  have queued := inv.queued k
  cases step with
  | take =>
      dsimp only
      rw [queuedAt_start]
      exact queued
  | @asyncWrite w job d message left more _ found =>
      dsimp only
      rw [queuedAt_next found more, ← queued]
      exact messagesOf_enqueueWrite s (s.serving w) k message
  | writeQueue _ kept =>
      rw [DeliveryState.messagesOf, kept]
      exact queued
  | _ => exact queued

theorem DeliveryInv.step_served (inv : DeliveryInv requests s) (step : DeliveryStep s t) (k : Nat)
    (d : Delivery handleRequest) (found : t.deliveries[k]? = some d) (unfinished : d.left ≠ []) :
    ∃ w, t.serving w = k ∧ (t.pool.workers w).held = {d.job} := by
  cases step with
  | arrive _ step | otherPush step =>
      exact served_of_held (s := s) step.held_of_push (inv.served k d found unfinished)
  | poolSilent step =>
      exact served_of_held (s := s) step.held_of_silent (inv.served k d found unfinished)
  | writeQueue => exact inv.served k d found unfinished
  | @take w job pool step =>
      obtain ⟨free, holds, others⟩ := step.held_of_take
      rcases Nat.lt_or_ge k s.deliveries.length with old | new
      · -- the worker that takes the job served nobody, so this one is another
        rw [List.getElem?_append_left old] at found
        obtain ⟨v, serving, busy⟩ := inv.served k d found unfinished
        have other : v ≠ w := by
          intro same
          rw [same, free] at busy
          exact Multiset.singleton_ne_zero _ busy.symm
        refine ⟨v, ?_, (others v other).trans busy⟩
        exact (Function.update_of_ne other ..).trans serving
      · rw [List.getElem?_append_right new] at found
        rcases List.getElem?_eq_some_iff.mp found with ⟨isLast, isStart⟩
        rw [List.length_singleton] at isLast
        obtain rfl : k = s.deliveries.length := by omega
        have isStart : Delivery.start job = d := by simpa using isStart
        refine ⟨w, Function.update_self .., ?_⟩
        rw [← isStart]
        exact holds
  | @asyncWrite w job e message left more _ found' =>
      dsimp only at found
      rw [List.getElem?_set] at found
      split at found
      · rename_i here
        split at found
        · obtain rfl := Option.some.inj found
          rw [here] at found'
          exact inv.served k e found' (by rw [more]; nofun)
        · cases found
      · exact inv.served k d found unfinished
  | @finish w job e pool step found' finished =>
      obtain ⟨v, serving, busy⟩ := inv.served k d found unfinished
      have other : v ≠ w := by
        intro same
        rw [← same, serving, found] at found'
        rw [Option.some.inj found'] at unfinished
        exact unfinished finished
      exact ⟨v, serving, (step.held_of_finish v other).trans busy⟩

theorem DeliveryInv.step (inv : DeliveryInv requests s) (step : DeliveryStep s t) :
    DeliveryInv requests t where
  arrived := inv.step_arrived step
  jobs := inv.step_jobs step
  queued := inv.step_queued step
  served := inv.step_served step

theorem DeliveryInv.of_reachable
    (reached : (deliverySystem handleRequest requests n).Reachable s) :
    DeliveryInv requests s := by
  apply reached.invariant
  · intro s initial
    subst initial
    exact .initial
  · exact fun s t inv step => inv.step step

end Invariant

/-! ## What every interleaving guarantees -/

/-- What a connection can rely on in every interleaving. -/
structure DeliveryContract {handleRequest : RequestHandler} {n : Nat} (requests : List Request)
    (s : DeliveryState handleRequest n) : Prop where
  /-- The workers take the requests in their order. -/
  taken_in_order : s.pool.taken.filterMap Job.request? <+: requests
  /-- A delivery queues its own messages in their order. -/
  own_in_order : ∀ k job, s.pool.taken[k]? = some job →
    s.messagesOf k <+: job.messages handleRequest
  /-- A delivery whose worker has returned has queued all its messages. -/
  own_complete : ∀ k job, s.pool.taken[k]? = some job →
    (∀ w, s.serving w = k → (s.pool.workers w).held = 0) →
    s.messagesOf k = job.messages handleRequest
  /-- Nothing else is queued. -/
  nothing_else : ∀ k, s.pool.taken.length ≤ k → s.messagesOf k = []
  /-- The socket gets the messages in the order in which they were queued. -/
  sent_in_order : s.write.started <+: s.write.pushed

section Contract

variable {handleRequest : RequestHandler} {n : Nat} {requests : List Request}
  {s : DeliveryState handleRequest n}

/-- The pool of a delivery runs as the pool of the thread pool module does. -/
theorem pool_reachable (reached : (deliverySystem handleRequest requests n).Reachable s) :
    (poolSystem n Job).Reachable s.pool := by
  apply reached.image DeliveryState.pool
  · intro s initial
    subst initial
    rfl
  · intro s t step
    cases step with
    | arrive _ step | otherPush step | take step | finish step _ _ | poolSilent step =>
        exact .inl ⟨_, step⟩
    | asyncWrite | writeQueue => exact .inr rfl

/-- The write queue of a delivery runs as the queues of a connection do. -/
theorem write_queueInv (reached : (deliverySystem handleRequest requests n).Reachable s) :
    QueueInv s.write := by
  apply reached.invariant (P := fun s => QueueInv s.write)
  · intro s initial
    subst initial
    exact .fresh
  · intro s t inv step
    cases step with
    | asyncWrite => exact inv.step (s.write.step_enqueueWrite _)
    | writeQueue step _ => exact inv.step step
    | _ => exact inv

theorem delivery_of_taken (inv : DeliveryInv requests s) {k : Nat} {job : Job}
    (taken : s.pool.taken[k]? = some job) :
    ∃ d, s.deliveries[k]? = some d ∧ d.job = job ∧ s.messagesOf k = d.queued := by
  rw [← inv.jobs, List.getElem?_map] at taken
  rcases Option.map_eq_some_iff.mp taken with ⟨d, found, isJob⟩
  refine ⟨d, found, isJob, ?_⟩
  rw [inv.queued, queuedAt, found]
  rfl

theorem deliveryContract_of_reachable (positive : 0 < n)
    (reached : (deliverySystem handleRequest requests n).Reachable s) :
    DeliveryContract requests s where
  taken_in_order := by
    obtain ⟨waiting, fifo⟩ :=
      (PoolInv.of_reachable positive (pool_reachable reached)).contract.taken_in_order
    rw [← (DeliveryInv.of_reachable reached).arrived, ← fifo, List.filterMap_append,
      List.append_assoc]
    exact List.prefix_append _ _
  own_in_order k job taken := by
    obtain ⟨d, -, rfl, queued⟩ := delivery_of_taken (.of_reachable reached) taken
    rw [queued, ← d.whole]
    exact List.prefix_append _ _
  own_complete k job taken returned := by
    have inv := DeliveryInv.of_reachable reached
    obtain ⟨d, found, rfl, queued⟩ := delivery_of_taken inv taken
    rw [queued]
    apply Delivery.queued_of_done
    by_contra unfinished
    obtain ⟨w, serving, busy⟩ := inv.served k d found unfinished
    rw [returned w serving] at busy
    exact Multiset.singleton_ne_zero _ busy.symm
  nothing_else k above := by
    have inv := DeliveryInv.of_reachable reached
    rw [← inv.jobs, List.length_map] at above
    rw [inv.queued, queuedAt, List.getElem?_eq_none above]
    rfl
  sent_in_order := (write_queueInv reached).discipline.started_in_order

end Contract

/-! ## One delivery at a time -/

/-- Only the last request taken can be unfinished, and the queue has the
messages of one delivery after those of another. -/
structure AloneInv {handleRequest : RequestHandler} {n : Nat}
    (s : DeliveryState handleRequest n) : Prop where
  ordered : s.write.pushed.map (·.2) = s.deliveries.flatMap (·.queued)
  last : s.deliveries.Pairwise fun d e => d.left ≠ [] → e.job.request? = none

/-- What holds of the order of the responses. -/
structure OrderedDelivery {handleRequest : RequestHandler} {n : Nat} (requests : List Request)
    (s : DeliveryState handleRequest n) : Prop where
  in_order : s.wire <+: requests.flatMap (complete handleRequest)
  all_complete : s.AllDelivered → s.wire = requests.flatMap (complete handleRequest)

section Ordered

variable {handleRequest : RequestHandler} {n : Nat} {requests : List Request}
  {s t : DeliveryState handleRequest n} {deliveries : List (Delivery handleRequest)}

theorem flatMap_queued_of_others (others : ∀ d ∈ deliveries, d.job.request? = none) :
    deliveries.flatMap (·.queued) = [] := by
  apply List.flatMap_eq_nil_iff.mpr
  intro d member
  exact (Delivery.nothing_of_other (others d member)).1

theorem AloneInv.step (inv : DeliveryInv requests s) (alone : AloneInv s)
    (step : DeliveryStep s t) (meets : Alone s t) : AloneInv t := by
  obtain ⟨ordered, last⟩ := alone
  cases step with
  | @take w job pool step =>
      constructor
      · dsimp only
        rw [List.flatMap_append, ordered]
        exact (List.append_nil _).symm
      · refine List.pairwise_append.mpr ⟨last, List.pairwise_singleton _ _, ?_⟩
        intro d member e isNew unfinished
        rw [List.mem_singleton.mp isNew]
        cases job with
        | other => rfl
        | deliver req =>
            -- the worker of an unfinished delivery would be busy
            rcases List.mem_iff_getElem?.mp member with ⟨k, found⟩
            obtain ⟨v, -, busy⟩ := inv.served k d found unfinished
            have taken : pool.taken = s.pool.taken ++ [.deliver req] := step.taken
            cases isJob : d.job with
            | other =>
                exact absurd (Delivery.nothing_of_other (by rw [isJob]; rfl)).2 unfinished
            | deliver other => exact absurd (isJob ▸ busy) (meets req taken v other)
  | @asyncWrite w job d message left more _ found =>
      obtain ⟨before, after, split, -, set⟩ := exists_split found
      rw [split] at ordered last
      rcases List.pairwise_append.mp last with ⟨front, back, across⟩
      rcases List.pairwise_cons.mp back with ⟨later, back⟩
      have others : ∀ e ∈ after, e.job.request? = none := fun e member =>
        later e member (by rw [more]; nofun)
      constructor
      · dsimp only
        rw [set, QueueState.enqueueWrite, List.map_append, ordered]
        simp only [List.flatMap_append, List.flatMap_cons, flatMap_queued_of_others others,
          Delivery.next, List.append_nil, List.append_assoc, List.map_cons, List.map_nil]
      · dsimp only
        rw [set]
        refine List.pairwise_append.mpr ⟨front, List.pairwise_cons.mpr ⟨?_, back⟩, ?_⟩
        · exact fun e member _ => others e member
        · intro e member e' member'
          rcases List.mem_cons.mp member' with rfl | isAfter
          · exact across e member d List.mem_cons_self
          · exact across e member e' (List.mem_cons_of_mem _ isAfter)
  | writeQueue _ kept =>
      refine ⟨?_, last⟩
      dsimp only
      rw [kept, ordered]
  | _ => exact ⟨ordered, last⟩

theorem AloneInv.of_reachable
    (reached : ((deliverySystem handleRequest requests n).restrict Alone).Reachable s) :
    AloneInv s := by
  apply reached.invariant_of_known (Q := DeliveryInv requests) (P := AloneInv)
  · exact fun s reached => .of_reachable reached.of_restrict
  · intro s initial
    subst initial
    exact ⟨rfl, .nil⟩
  · exact fun s t inv alone step => alone.step inv step.1 step.2

/-- Deliveries of which only the last is unfinished have queued a prefix of all
their messages. -/
theorem flatMap_queued_isPrefix
    (last : deliveries.Pairwise fun d e => d.left ≠ [] → e.job.request? = none) :
    deliveries.flatMap (·.queued) <+:
      (deliveries.map (·.job)).flatMap (Job.messages handleRequest) := by
  induction deliveries with
  | nil => exact List.prefix_refl _
  | cons d deliveries ih =>
      rcases List.pairwise_cons.mp last with ⟨later, last⟩
      rw [List.flatMap_cons, List.map_cons, List.flatMap_cons]
      by_cases done : d.left = []
      · rw [Delivery.queued_of_done done]
        exact (List.prefix_append_right_inj _).mpr (ih last)
      · rw [flatMap_queued_of_others fun e member => later e member done, List.append_nil,
          ← d.whole, List.append_assoc]
        exact List.prefix_append _ _

theorem flatMap_messages (jobs : List Job) :
    (jobs.flatMap (Job.messages handleRequest)).flatten =
      (jobs.filterMap Job.request?).flatMap (complete handleRequest) := by
  induction jobs with
  | nil => rfl
  | cons job jobs ih =>
      rw [List.flatMap_cons, List.flatten_append, ih]
      cases job with
      | deliver req => rfl
      | other => rfl

theorem prefix_flatten {α : Type*} {l l' : List (List α)} (isPrefix : l <+: l') :
    l.flatten <+: l'.flatten := by
  obtain ⟨rest, rfl⟩ := isPrefix
  rw [List.flatten_append]
  exact List.prefix_append _ _

theorem prefix_flatMap {α β : Type*} {l l' : List α} (f : α → List β) (isPrefix : l <+: l') :
    l.flatMap f <+: l'.flatMap f := by
  obtain ⟨rest, rfl⟩ := isPrefix
  rw [List.flatMap_append]
  exact List.prefix_append _ _

theorem flatMap_queued_of_done (done : ∀ d ∈ deliveries, d.left = []) :
    deliveries.flatMap (·.queued) =
      (deliveries.map (·.job)).flatMap (Job.messages handleRequest) := by
  rw [List.flatMap_map]
  exact List.flatMap_congr fun d member => Delivery.queued_of_done (done d member)

theorem wire_eq (alone : AloneInv s) : s.wire = (s.deliveries.flatMap (·.queued)).flatten :=
  congrArg List.flatten alone.ordered

theorem wire_isPrefix (inv : DeliveryInv requests s) (alone : AloneInv s) :
    s.wire <+: (s.pool.taken.filterMap Job.request?).flatMap (complete handleRequest) := by
  rw [wire_eq alone, ← flatMap_messages, ← inv.jobs]
  exact prefix_flatten (flatMap_queued_isPrefix alone.last)

theorem wire_of_allDelivered (inv : DeliveryInv requests s) (alone : AloneInv s)
    (all : s.AllDelivered) :
    s.wire = (s.pool.taken.filterMap Job.request?).flatMap (complete handleRequest) := by
  have done : ∀ d ∈ s.deliveries, d.left = [] := by
    intro d member
    by_contra unfinished
    rcases List.mem_iff_getElem?.mp member with ⟨k, found⟩
    obtain ⟨w, -, busy⟩ := inv.served k d found unfinished
    rw [all.2.2 w] at busy
    exact Multiset.singleton_ne_zero _ busy.symm
  rw [wire_eq alone, flatMap_queued_of_done done, inv.jobs, flatMap_messages]

theorem orderedDelivery_of_alone (positive : 0 < n)
    (reached : ((deliverySystem handleRequest requests n).restrict Alone).Reachable s) :
    OrderedDelivery requests s := by
  have inv := DeliveryInv.of_reachable reached.of_restrict
  have alone := AloneInv.of_reachable reached
  have pool := PoolInv.of_reachable positive (pool_reachable reached.of_restrict)
  have contract := deliveryContract_of_reachable positive reached.of_restrict
  constructor
  · apply (wire_isPrefix inv alone).trans
    exact prefix_flatMap _ contract.taken_in_order
  · intro all
    have arrived := inv.arrived
    rw [pool.fifo, all.1, all.2.1, List.append_nil, List.append_nil] at arrived
    rw [wire_of_allDelivered inv alone all, arrived]

/-- The only worker of a pool delivers nothing else when it takes a request. -/
theorem alone_of_one_worker {s t : DeliveryState handleRequest 1} (step : DeliveryStep s t) :
    Alone s t := by
  intro req taken v other busy
  have grows := congrArg List.length taken
  rw [List.length_append, List.length_singleton] at grows
  cases step with
  | @take w job pool step =>
      rw [Subsingleton.elim v w, step.held_of_take.1] at busy
      exact Multiset.singleton_ne_zero _ busy.symm
  | arrive _ step | otherPush step | finish step _ _ | poolSilent step =>
      dsimp only at grows
      rw [step.taken, PoolEvent.takes, List.append_nil] at grows
      omega
  | asyncWrite | writeQueue =>
      dsimp only at grows
      omega

end Ordered

/-- **Delivery of pipelined requests.** In every interleaving the requests are
taken in order and each response queues its own messages in order and
completely. As long as no request is taken while another is being delivered,
and so in a pool with one worker, the responses are complete, in the order of
the requests and not mixed. -/
theorem response_delivery (handleRequest : RequestHandler) (requests : List Request) {n : Nat}
    (positive : 0 < n) :
    (∀ s, (deliverySystem handleRequest requests n).Reachable s → DeliveryContract requests s) ∧
    (∀ s, ((deliverySystem handleRequest requests n).restrict Alone).Reachable s →
      OrderedDelivery requests s) ∧
    (n = 1 → ∀ s, (deliverySystem handleRequest requests n).Reachable s →
      OrderedDelivery requests s) := by
  refine ⟨?_, ?_, ?_⟩
  · exact fun s reached => deliveryContract_of_reachable positive reached
  · exact fun s reached => orderedDelivery_of_alone positive reached
  · intro one s reached
    subst one
    exact orderedDelivery_of_alone positive
      (reached.restrict fun s t step => alone_of_one_worker step)

/-! ## Two workers mix two responses -/

/-- A handler that answers with the path. -/
def echoPath : RequestHandler := fun req => (req, [.body (.write req.path)])

def pathRequest (path : String) : Request :=
  { method := str "GET", path := str path, version := str "HTTP/1.1" }

def okLine : Bytes := str "HTTP/1.1 200 OK\r\n"

/-- The header block and the body of an answer. -/
def echoBlock (path : String) : Bytes :=
  str "Connection: keep-alive\r\nContent-Length: 2\r\n\r\n" ++ str path

theorem deliverRequest_a :
    deliverRequest echoPath (pathRequest "/a") = [okLine, echoBlock "/a"] := by
  decide +kernel

theorem deliverRequest_b :
    deliverRequest echoPath (pathRequest "/b") = [okLine, echoBlock "/b"] := by
  decide +kernel

/-- The delivery of `pathRequest path` when its worker starts it. -/
def echoStart (path : String) : Delivery echoPath := .start (.deliver (pathRequest path))

theorem echoStart_a : (echoStart "/a").left = [okLine, echoBlock "/a"] := by
  rw [echoStart, Delivery.start_left, Job.messages_deliver, deliverRequest_a]

theorem echoStart_b : (echoStart "/b").left = [okLine, echoBlock "/b"] := by
  rw [echoStart, Delivery.start_left, Job.messages_deliver, deliverRequest_b]

/-- One worker delivers one request. -/
theorem response_delivery_of_one_request :
    ∃ s, (deliverySystem echoPath [pathRequest "/a"] 1).Reachable s ∧ s.AllDelivered ∧
      DeliveryContract [pathRequest "/a"] s ∧ OrderedDelivery [pathRequest "/a"] s := by
  have arrived := (TransitionSystem.Reachable.start
    (T := deliverySystem echoPath [pathRequest "/a"] 1) rfl).next
      (.arrive rfl (.enqueue (Job.deliver (pathRequest "/a")) rfl))
  have taken := arrived.next (.take (.take (w := 0) rfl rfl))
  have line := taken.next (.asyncWrite (w := 0) echoStart_a rfl rfl)
  have block := line.next (.asyncWrite (w := 0) rfl rfl rfl)
  have finished := block.next (.finish (.finish (w := 0) rfl) rfl rfl)
  have settled := response_delivery echoPath [pathRequest "/a"] (n := 1) (by decide)
  refine ⟨_, finished, ⟨rfl, rfl, ?_⟩, settled.1 _ finished, settled.2.2 rfl _ finished⟩
  exact Fin.forall_fin_one.mpr rfl

/-- Two workers deliver two requests, and the first message of the second
response comes between the two messages of the first. -/
theorem two_workers_mix_responses :
    ∃ s, (deliverySystem echoPath [pathRequest "/a", pathRequest "/b"] 2).Reachable s ∧
      s.AllDelivered ∧
      s.wire ≠ [pathRequest "/a", pathRequest "/b"].flatMap (complete echoPath) := by
  have arrived := ((TransitionSystem.Reachable.start
    (T := deliverySystem echoPath [pathRequest "/a", pathRequest "/b"] 2) rfl).next
      (.arrive rfl (.enqueue (Job.deliver (pathRequest "/a")) rfl))).next
      (.arrive rfl (.enqueue (Job.deliver (pathRequest "/b")) rfl))
  have taken := (arrived.next (.take (.take (w := 0) rfl rfl))).next
    (.take (.take (w := 1) rfl rfl))
  have first := taken.next (.asyncWrite (w := 0) echoStart_a rfl rfl)
  have between := first.next (.asyncWrite (w := 1) echoStart_b rfl rfl)
  have queued := (between.next (.asyncWrite (w := 0) rfl rfl rfl)).next
    (.asyncWrite (w := 1) rfl rfl rfl)
  have finished := (queued.next (.finish (.finish (w := 0) rfl) rfl rfl)).next
    (.finish (.finish (w := 1) rfl) rfl rfl)
  refine ⟨_, finished, ⟨rfl, rfl, Fin.forall_fin_two.mpr ⟨rfl, rfl⟩⟩, ?_⟩
  have mixed : [okLine, okLine, echoBlock "/a", echoBlock "/b"].flatten ≠
      [okLine, echoBlock "/a"].flatten ++ [okLine, echoBlock "/b"].flatten := by decide +kernel
  have ordered : [pathRequest "/a", pathRequest "/b"].flatMap (complete echoPath) =
      [okLine, echoBlock "/a"].flatten ++ [okLine, echoBlock "/b"].flatten := by
    rw [List.flatMap_cons, List.flatMap_singleton, complete, complete, deliverRequest_a,
      deliverRequest_b]
  exact fun same => mixed (same.trans ordered)

end Ahttpd

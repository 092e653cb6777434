import Ahttpd.Basis.Ledger
import Ahttpd.Delivery

/-!
# A client that waits

Two workers can mix the responses to pipelined requests. A client that sends a
request only when it has the responses to all earlier ones never sees this,
however many workers there are (`waiting_client_is_answered`). The responses
are parcels on the line, in the order in which their jobs were pushed, and the
invariant is that they are sent in turn. A worker may still hold a job when its
last byte is out, so the condition under which pipelined responses are in order
need not hold here.
-/

namespace Ahttpd

open Basis Parcel

section

variable {handleRequest : RequestHandler} {n : Nat}

/-- A request comes in only when the responses to all earlier ones are out. -/
def Waits (s t : DeliveryState handleRequest n) : Prop :=
  t.arrivals ≠ s.arrivals →
    s.wire = (s.pool.pushed.filterMap Job.request?).flatMap (complete handleRequest)

/-- The bytes of a job that a worker has taken. -/
def Delivery.parcel (d : Delivery handleRequest) : Parcel Byte :=
  ⟨d.queued.flatten, d.left.flatten⟩

/-- The bytes of a job that no worker has taken. -/
def Job.parcel (handleRequest : RequestHandler) (job : Job) : Parcel Byte :=
  ⟨[], (job.messages handleRequest).flatten⟩

/-- All jobs, in the order in which they were pushed. -/
def DeliveryState.ledger (s : DeliveryState handleRequest n) : List (Parcel Byte) :=
  s.deliveries.map (·.parcel) ++ s.pool.tasks.map (Job.parcel handleRequest)

/-- The line carries the responses one after the other. -/
structure WaitInv (s : DeliveryState handleRequest n) : Prop where
  wire : s.wire = allSent s.ledger
  inTurn : InTurn s.ledger

end

section Turns

variable {handleRequest : RequestHandler} {n : Nat} {requests : List Request}
  {s t : DeliveryState handleRequest n} {pool : PoolState n Job} {event : PoolEvent n Job}
  {job : Job} {w : Fin n}

theorem Delivery.whole_parcel (d : Delivery handleRequest) :
    d.parcel.whole = (d.job.parcel handleRequest).whole := by
  rw [Parcel.whole, Delivery.parcel, ← List.flatten_append, d.whole]
  rfl

theorem allWhole_parcels (jobs : List Job) : allWhole (jobs.map (Job.parcel handleRequest)) =
    (jobs.filterMap Job.request?).flatMap (complete handleRequest) := by
  induction jobs with
  | nil => rfl
  | cons job jobs ih =>
      rw [List.map_cons, allWhole, List.flatMap_cons, ← allWhole, ih]
      cases job with
      | deliver req => rfl
      | other => rfl

/-- The ledger lists the responses to all that has been pushed. -/
theorem allWhole_ledger (inv : DeliveryInv requests s)
    (fifo : s.pool.pushed = s.pool.taken ++ s.pool.tasks) :
    allWhole s.ledger =
      (s.pool.pushed.filterMap Job.request?).flatMap (complete handleRequest) := by
  have deliveries : allWhole (s.deliveries.map Delivery.parcel) =
      allWhole (s.pool.taken.map (Job.parcel handleRequest)) := by
    rw [← inv.jobs, allWhole, allWhole, List.flatMap_map, List.flatMap_map, List.flatMap_map]
    exact List.flatMap_congr fun d _ => d.whole_parcel
  rw [← allWhole_parcels, fifo, List.map_append, DeliveryState.ledger, allWhole, allWhole,
    List.flatMap_append, List.flatMap_append]
  exact congrArg (· ++ _) deliveries

/-! ## What moves the ledger -/

theorem tasks_of_push (step : PoolStep s.pool (.push job) pool) :
    pool.tasks = s.pool.tasks ++ [job] := by
  cases step with
  | enqueue => rfl
  | taskEnqueue => rfl

theorem tasks_of_silent (step : PoolStep s.pool .silent pool) : pool.tasks = s.pool.tasks := by
  cases step with
  | _ => rfl

theorem tasks_of_finish (step : PoolStep s.pool (.finish w job) pool) :
    pool.tasks = s.pool.tasks := by
  cases step with
  | finish => rfl

theorem tasks_of_take (step : PoolStep s.pool (.take w job) pool) :
    s.pool.tasks = job :: pool.tasks := by
  cases step with
  | take _ next => exact next

/-- A job that is pushed comes last. -/
theorem ledger_push (step : PoolStep s.pool (.push job) pool) :
    s.deliveries.map Delivery.parcel ++ pool.tasks.map (Job.parcel handleRequest) =
      s.ledger ++ [job.parcel handleRequest] := by
  rw [DeliveryState.ledger, tasks_of_push step, List.map_append, ← List.append_assoc]
  rfl

/-- A job that a worker takes keeps its place. -/
theorem ledger_take (step : PoolStep s.pool (.take w job) pool) :
    (s.deliveries ++ [Delivery.start job]).map Delivery.parcel ++
      pool.tasks.map (Job.parcel handleRequest) = s.ledger := by
  rw [DeliveryState.ledger, tasks_of_take step, List.map_append, List.append_assoc]
  rfl

/-- What a step does to the ledger and the line: nothing, or it adds a parcel,
which is empty unless a request comes in, or it sends a piece of one. -/
theorem DeliveryStep.ledger_cases (step : DeliveryStep s t) :
    (t.ledger = s.ledger ∧ t.wire = s.wire) ∨
    (∃ p : Parcel Byte, p.sent = [] ∧ (t.arrivals ≠ s.arrivals ∨ p.whole = []) ∧
      t.ledger = s.ledger ++ [p] ∧ t.wire = s.wire) ∨
    ∃ before p after piece rest, s.ledger = before ++ p :: after ∧ p.owed = piece ++ rest ∧
      t.ledger = before ++ ⟨p.sent ++ piece, rest⟩ :: after ∧ t.wire = s.wire ++ piece := by
  cases step with
  | @arrive req arrivals pool next push =>
      refine .inr (.inl ⟨_, rfl, .inl ?_, ledger_push push, rfl⟩)
      rw [next]
      exact (List.cons_ne_self req arrivals).symm
  | otherPush push => exact .inr (.inl ⟨_, rfl, .inr rfl, ledger_push push, rfl⟩)
  | take step => exact .inl ⟨ledger_take step, rfl⟩
  | @asyncWrite w job d message left more _ found =>
      obtain ⟨before, after, split, -, set⟩ := exists_split found
      refine .inr (.inr ⟨before.map Delivery.parcel, d.parcel,
        after.map Delivery.parcel ++ s.pool.tasks.map (Job.parcel handleRequest), message,
        left.flatten, ?_, ?_, ?_, ?_⟩)
      · rw [DeliveryState.ledger, split, List.map_append, List.map_cons, List.append_assoc]
        rfl
      · rw [Delivery.parcel, more, List.flatten_cons]
      · have sent : (d.next more).parcel = ⟨d.parcel.sent ++ message, left.flatten⟩ := by
          rw [Delivery.parcel, Delivery.next, List.flatten_append, List.flatten_singleton]
          rfl
        rw [DeliveryState.ledger, set, List.map_append, List.map_cons, List.append_assoc, sent]
        rfl
      · rw [DeliveryState.wire, QueueState.enqueueWrite, List.map_append, List.flatten_append]
        exact congrArg (s.wire ++ ·) List.flatten_singleton
  | finish step _ _ =>
      refine .inl ⟨?_, rfl⟩
      rw [DeliveryState.ledger, tasks_of_finish step]
      rfl
  | poolSilent step =>
      refine .inl ⟨?_, rfl⟩
      rw [DeliveryState.ledger, tasks_of_silent step]
      rfl
  | writeQueue _ kept =>
      refine .inl ⟨rfl, ?_⟩
      rw [DeliveryState.wire, kept]
      rfl

/-! ## One response after the other -/

theorem WaitInv.step (inv : DeliveryInv requests s)
    (fifo : s.pool.pushed = s.pool.taken ++ s.pool.tasks) (waiting : WaitInv s)
    (step : DeliveryStep s t) (waits : Waits s t) : WaitInv t := by
  obtain ⟨wire, inTurn⟩ := waiting
  rcases step.ledger_cases with ⟨ledger, still⟩ | ⟨p, unsent, arrives, ledger, still⟩ |
    ⟨before, p, after, piece, rest, split, owed, ledger, grows⟩
  · exact ⟨by rw [ledger, still, wire], ledger ▸ inTurn⟩
  · constructor
    · rw [ledger, still, wire, allSent_append, allSent, allSent, List.flatMap_singleton, unsent,
        List.append_nil]
    · rw [ledger]
      -- a request comes in when nothing is owed
      refine inTurn.push (arrives.imp_left fun moved => ?_)
      exact owed_of_allSent (wire.symm.trans ((waits moved).trans (allWhole_ledger inv fifo).symm))
  · rw [split] at wire inTurn
    obtain ⟨inTurn', sent⟩ := inTurn.send owed
    exact ⟨by rw [ledger, grows, wire, sent], ledger ▸ inTurn'⟩

theorem WaitInv.of_reachable (positive : 0 < n)
    (reached : ((deliverySystem handleRequest requests n).restrict Waits).Reachable s) :
    WaitInv s := by
  apply reached.invariant_of_known (P := WaitInv)
    (Q := fun s => DeliveryInv requests s ∧ s.pool.pushed = s.pool.taken ++ s.pool.tasks)
  · intro s reached
    exact ⟨.of_reachable reached.of_restrict,
      (PoolInv.of_reachable positive (pool_reachable reached.of_restrict)).fifo⟩
  · intro s initial
    subst initial
    exact ⟨rfl, .nil⟩
  · exact fun s t known waiting step => waiting.step known.1 known.2 step.1 step.2

theorem left_of_allDelivered {d : Delivery handleRequest} (inv : DeliveryInv requests s)
    (all : s.AllDelivered) (member : d ∈ s.deliveries) : d.left = [] := by
  by_contra unfinished
  rcases List.mem_iff_getElem?.mp member with ⟨k, found⟩
  obtain ⟨w, -, busy⟩ := inv.served k d found unfinished
  rw [all.2.2 w] at busy
  exact Multiset.singleton_ne_zero _ busy.symm

theorem orderedDelivery_of_waits (positive : 0 < n)
    (reached : ((deliverySystem handleRequest requests n).restrict Waits).Reachable s) :
    OrderedDelivery requests s := by
  have inv := DeliveryInv.of_reachable reached.of_restrict
  have pool := PoolInv.of_reachable positive (pool_reachable reached.of_restrict)
  obtain ⟨wire, inTurn⟩ := WaitInv.of_reachable positive reached
  have whole := allWhole_ledger inv pool.fifo
  constructor
  · rw [wire, ← inv.arrived, List.flatMap_append, ← whole]
    exact inTurn.sent_isPrefix.trans (List.prefix_append _ _)
  · intro all
    have arrived := inv.arrived
    rw [all.1, List.append_nil] at arrived
    rw [wire, ← arrived, ← whole]
    apply allSent_of_done
    rw [DeliveryState.ledger, all.2.1, List.map_nil, List.append_nil]
    intro p member
    rcases List.mem_map.mp member with ⟨d, isDelivery, rfl⟩
    rw [Delivery.parcel, left_of_allDelivered inv all isDelivery]
    rfl

theorem DeliveryStep.arrivals_of_moved (step : DeliveryStep s t)
    (moved : t.arrivals ≠ s.arrivals) : ∃ req, s.arrivals = req :: t.arrivals := by
  cases step with
  | arrive next _ => exact ⟨_, next⟩
  | _ => exact absurd rfl moved

/-- Whoever sends one request waits. -/
theorem waits_of_one {req : Request} (positive : 0 < n)
    (reached : (deliverySystem handleRequest [req] n).Reachable s) :
    ((deliverySystem handleRequest [req] n).restrict Waits).Reachable s := by
  apply reached.invariant_of_known (P := ((deliverySystem handleRequest [req] n).restrict
    Waits).Reachable) (Q := fun s => DeliveryInv [req] s ∧ s.pool.pushed = s.pool.taken ++
      s.pool.tasks)
  · exact fun s reached => ⟨.of_reachable reached, (PoolInv.of_reachable positive
      (pool_reachable reached)).fifo⟩
  · exact fun s initial => .start initial
  · intro s t known waited step
    refine waited.next ⟨step, fun moved => ?_⟩
    -- nothing has come in yet, so nothing has been sent
    have before : s.pool.pushed.filterMap Job.request? = [] := by
      obtain ⟨next, comes⟩ := step.arrivals_of_moved moved
      have arrived := known.1.arrived
      rw [comes] at arrived
      cases isPushed : s.pool.pushed.filterMap Job.request? with
      | nil => rfl
      | cons first pushed =>
          rw [isPushed, List.cons_append] at arrived
          exact absurd (List.cons.inj arrived).2 (by simp)
    have whole := allWhole_ledger known.1 known.2
    have sent := (WaitInv.of_reachable positive waited).inTurn.sent_isPrefix
    rw [before] at whole ⊢
    rw [whole] at sent
    rw [(WaitInv.of_reachable positive waited).wire]
    exact List.prefix_nil.mp sent

/-- **A client that waits is answered.** However many workers there are and in
every interleaving: when each request comes in after the responses to the
earlier ones are out, the responses are complete, in the order of the requests
and not mixed. -/
theorem waiting_client_is_answered (handleRequest : RequestHandler) (requests : List Request)
    {n : Nat} (positive : 0 < n) :
    (∀ s, ((deliverySystem handleRequest requests n).restrict Waits).Reachable s →
      OrderedDelivery requests s) ∧
    (∀ req, requests = [req] → ∀ s, (deliverySystem handleRequest requests n).Reachable s →
      OrderedDelivery requests s) := by
  constructor
  · exact fun s reached => orderedDelivery_of_waits positive reached
  · intro req one s reached
    subst one
    exact orderedDelivery_of_waits positive (waits_of_one positive reached)

end Turns

/-- The second request comes in when the first response is out, while its
worker still holds it. -/
theorem waiting_client_is_answered_of_two :
    ∃ s, ((deliverySystem echoPath [pathRequest "/a", pathRequest "/b"] 2).restrict
        Waits).Reachable s ∧ s.AllDelivered ∧
      OrderedDelivery [pathRequest "/a", pathRequest "/b"] s := by
  have stays {s t : DeliveryState echoPath 2} (same : t.arrivals = s.arrivals) : Waits s t :=
    fun moved => absurd same moved
  have first := (TransitionSystem.Reachable.start
    (T := (deliverySystem echoPath [pathRequest "/a", pathRequest "/b"] 2).restrict Waits) rfl).next
      ⟨.arrive rfl (.enqueue (Job.deliver (pathRequest "/a")) rfl), fun _ => rfl⟩
  have taken := first.next ⟨.take (.take (w := 0) rfl rfl), stays rfl⟩
  have line := taken.next ⟨.asyncWrite (w := 0) echoStart_a rfl rfl, stays rfl⟩
  have block := line.next ⟨.asyncWrite (w := 0) rfl rfl rfl, stays rfl⟩
  have out : [okLine, echoBlock "/a"].flatten = complete echoPath (pathRequest "/a") ++ [] := by
    rw [complete, deliverRequest_a, List.append_nil]
  have second := block.next
    ⟨.arrive rfl (.enqueue (Job.deliver (pathRequest "/b")) rfl), fun _ => out⟩
  have taken' := second.next ⟨.take (.take (w := 1) rfl rfl), stays rfl⟩
  have line' := taken'.next ⟨.asyncWrite (w := 1) echoStart_b rfl rfl, stays rfl⟩
  have block' := line'.next ⟨.asyncWrite (w := 1) rfl rfl rfl, stays rfl⟩
  have finished := (block'.next ⟨.finish (.finish (w := 1) rfl) rfl rfl, stays rfl⟩).next
    ⟨.finish (.finish (w := 0) rfl) rfl rfl, stays rfl⟩
  refine ⟨_, finished, ⟨rfl, rfl, Fin.forall_fin_two.mpr ⟨rfl, rfl⟩⟩, ?_⟩
  exact (waiting_client_is_answered echoPath _ (by decide)).1 _ finished

end Ahttpd

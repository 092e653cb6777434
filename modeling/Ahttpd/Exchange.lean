import Ahttpd.Answer
import Ahttpd.Pipeline
import Ahttpd.Waiting

/-!
# From request to response and back

The parts put together: clients send requests, in bursts and cut into any
reads; the parse loop takes them off the connection, the pool delivers them,
and what comes back is read one response after the other (`exchange`). The
client gets, in the order of its requests, what the handler made of each, up to
the first request that does not keep the connection. The responses are not
mixed when the pool has one worker or the client waits.
-/

namespace Ahttpd

open Basis Segmented

/-- The messages that are read off a connection one after the other. -/
inductive Reads {π : Type} (D : Dialect π) : Net → List π → Net → Prop
  | done {net} : Reads D net [] net
  | next {net message messages t} : (parse D net).calls = [some message] →
      Reads D (parse D net).net messages t → Reads D net (message :: messages) t

/-- The responses to these requests can be read one behind the other. -/
structure AllAnswerable (handleRequest : RequestHandler) (requests : List Request) : Prop where
  each : ∀ req ∈ requests, Answerable handleRequest req
  ends : ∀ req ∈ requests.dropLast, (answer handleRequest req).toPackage.EndsItself
    (answer handleRequest req).stockBody (messageOps (answerOps handleRequest req))

/-- The pool does not mix the responses: it has one worker, or the client
waits. -/
def Orderly {handleRequest : RequestHandler} {n : Nat} (s t : DeliveryState handleRequest n) :
    Prop :=
  n = 1 ∨ Waits s t

section

variable {handleRequest : RequestHandler} {n : Nat} {req : Request} {requests : List Request}
  {s : DeliveryState handleRequest n}

theorem AllAnswerable.tail (answerable : AllAnswerable handleRequest (req :: requests)) :
    AllAnswerable handleRequest requests where
  each other member := answerable.each other (List.mem_cons_of_mem _ member)
  ends other member := by
    apply answerable.ends
    cases requests with
    | nil => exact absurd member List.not_mem_nil
    | cons next requests =>
        rw [List.dropLast_cons_of_ne_nil (List.cons_ne_nil _ _)]
        exact List.mem_cons_of_mem _ member

theorem orderedDelivery_of_orderly (positive : 0 < n)
    (reached : ((deliverySystem handleRequest requests n).restrict Orderly).Reachable s) :
    OrderedDelivery requests s := by
  by_cases one : n = 1
  · subst one
    exact orderedDelivery_of_alone positive
      (reached.of_restrict.restrict fun s t step => alone_of_one_worker step)
  · exact orderedDelivery_of_waits positive
      (reached.weaken fun s t orderly => orderly.resolve_left one)

theorem connected_received (m : Sending) : m.received.connected = true := by
  have same : m.received.toPackage = { headers := _, body := _ } :=
    Request.parseCookie_toPackage _
  rw [same]

theorem mem_of_mem_delivered {ended : Bool} (member : req ∈ (serveRequests ended
    requests).delivered) : req ∈ requests := by
  rw [serveRequests_delivered] at member
  rcases List.mem_append.mp member with kept | last
  · exact (List.takeWhile_sublist _).subset kept
  · exact (List.dropWhile_sublist _).subset ((List.take_sublist _ _).subset last)

end

/-! ## Reading the responses -/

section Answers

variable {handleRequest : RequestHandler} {requests : List Request} {responses : List Response}
  {s net : Net} {later : List (List Byte)} {ends : Bool} {groups : List (List Request)}
  {blocks : List (List Bytes)}

/-- What a reader finds behind a group of responses: it goes on with
`responses`. -/
def AnswersGoOn (later : List Bytes) (ends : Bool) (responses : List Response) : Prop :=
  ∀ s net, s.remaining = [] → s.buf.length ≤ maxRead → Extends later ends s net →
    ∃ t, Reads responseDialect net responses t ∧ t.remaining = []

/-- The responses of a group, one after the other. -/
theorem reads_of_answers (answerable : AllAnswerable handleRequest requests)
    (connected : ∀ req ∈ requests, req.connected = true) (settled : s.buf.length ≤ maxRead)
    (bytes : s.remaining = requests.flatMap (complete handleRequest))
    (longer : Extends later ends s net) (goesOn : AnswersGoOn later ends responses) :
    ∃ t, Reads responseDialect net (requests.map (answered handleRequest) ++ responses) t ∧
      t.remaining = [] := by
  induction requests generalizing s net with
  | nil => exact goesOn s net bytes settled longer
  | cons req requests ih =>
      have here := answerable.each req List.mem_cons_self
      have sent := deliverRequest_eq_sent here (connected req List.mem_cons_self)
      have front : s.remaining = ((Message.response (answer handleRequest req)).sent
          (messageOps (answerOps handleRequest req))).flatten ++
            requests.flatMap (complete handleRequest) := by
        rw [bytes, List.flatMap_cons, complete, sent]
      have itself : requests.flatMap (complete handleRequest) = [] ∨
          (answer handleRequest req).toPackage.EndsItself (answer handleRequest req).stockBody
            (messageOps (answerOps handleRequest req)) := by
        cases requests with
        | nil => exact .inl rfl
        | cons next requests =>
            refine .inr (answerable.ends req ?_)
            rw [List.dropLast_cons_of_ne_nil (List.cons_ne_nil _ _)]
            exact List.mem_cons_self
      obtain ⟨u, run, takes⟩ := Response.parse_of_response here.plain
        (unsent_answer handleRequest req) here.readable settled front itself
      have parsed : parse responseDialect s =
          ⟨[some (answered handleRequest req)], u, .finished⟩ := run
      have extends' := parse_extends responseDialect longer
        ⟨answered handleRequest req, by rw [parsed]; exact List.mem_cons_self⟩
      have rest := extends'.net
      rw [parsed] at rest
      obtain ⟨t, reads, nothing⟩ := ih answerable.tail
        (fun other member => connected other (List.mem_cons_of_mem _ member))
        (takes.settled settled) takes.remaining rest
      refine ⟨t, .next ?_ reads, nothing⟩
      rw [extends'.calls, parsed]

/-- Behind a group the next one arrives, in reads of its own. -/
theorem answersGoOn_of_groups (answerable : ∀ g ∈ groups, AllAnswerable handleRequest g)
    (connected : ∀ g ∈ groups, ∀ req ∈ g, req.connected = true)
    (arrives : List.Forall₂ (fun g block => block.flatten = g.flatMap (complete handleRequest))
      groups blocks) :
    AnswersGoOn blocks.flatten ends (groups.flatten.map (answered handleRequest)) := by
  induction arrives with
  | nil =>
      intro s net empty _ longer
      refine ⟨net, .done, ?_⟩
      rw [longer.remaining, empty]
      rfl
  | @cons g block groups blocks bytes _ ih =>
      rcases List.forall_mem_cons.mp answerable with ⟨first, others⟩
      rcases List.forall_mem_cons.mp connected with ⟨connects, connect⟩
      intro s net empty settled longer
      obtain ⟨next, buf, isNext, longer'⟩ := longer.split
      rw [List.flatten_cons, List.map_append]
      refine reads_of_answers (s := next) first connects (buf ▸ settled) ?_ longer'
        (ih others connect)
      rw [isNext, empty, bytes]
      rfl

/-- Blocks as long as the groups have the bytes of the groups. -/
theorem blocks_of_cuts {sent : List Request → Bytes}
    (cuts : List.Forall₂ (fun g block => block.flatten.length = (sent g).length) groups blocks)
    (bytes : blocks.flatten.flatten = groups.flatMap sent) :
    List.Forall₂ (fun g block => block.flatten = sent g) groups blocks := by
  induction cuts with
  | nil => exact .nil
  | cons lengths _ ih =>
      rw [List.flatten_cons, List.flatten_append, List.flatMap_cons] at bytes
      rcases List.append_inj bytes lengths with ⟨here, later⟩
      exact .cons here (ih later)

/-- **An exchange.** Requests are sent in bursts and arrive in any reads, the
server parses, delivers and answers them, and its bytes are read in groups of
responses, each in any reads. What comes back is one response for each request
up to the first that does not keep the connection, in the order of the
requests, and each is what the handler made of its request. -/
theorem exchange {n : Nat} {state : DeliveryState handleRequest n} {bursts : List Burst}
    {client : Net} {back : List (List Bytes)} (fits : ∀ b ∈ bursts, b.Fits)
    (arrives : List.Forall₂ (fun b block => block.flatten = Burst.bytes b) bursts blocks)
    (bring : ∀ block ∈ blocks, ∀ read ∈ block, read ≠ []) (empty : net.buf = [])
    (reads : net.reads = blocks.flatten) (positive : 0 < n)
    (reached : ((deliverySystem handleRequest (serve net).delivered n).restrict
      Orderly).Reachable state) (all : state.AllDelivered)
    (answerable : ∀ g ∈ groups, AllAnswerable handleRequest g)
    (isGroups : groups.flatten = (serve net).delivered)
    (returns : client.remaining = state.wire) (empty' : client.buf = [])
    (reads' : client.reads = back.flatten)
    (bring' : ∀ block ∈ back, ∀ read ∈ block, read ≠ [])
    (cuts : List.Forall₂ (fun g block => block.flatten.length =
      (g.flatMap (complete handleRequest)).length) groups back) :
    ∃ t, Reads responseDialect client ((serveRequests net.ended
        (bursts.flatten.map Sending.received)).delivered.map (answered handleRequest)) t ∧
      t.remaining = [] := by
  have served := serve_of_bursts fits arrives bring empty reads
  have wire : state.wire = (serve net).delivered.flatMap (complete handleRequest) :=
    (orderedDelivery_of_orderly positive reached).all_complete all
  have bytes : back.flatten.flatten =
      groups.flatMap fun g => g.flatMap (complete handleRequest) := by
    have groupwise : groups.flatten.flatMap (complete handleRequest) =
        groups.flatMap fun g => g.flatMap (complete handleRequest) := by
      rw [← List.flatMap_id, List.flatMap_assoc]
      rfl
    rw [← groupwise, isGroups, ← wire, ← returns, Segmented.remaining, empty', reads']
    rfl
  have connected : ∀ g ∈ groups, ∀ req ∈ g, req.connected = true := by
    intro g isGroup req member
    have delivered : req ∈ (serve net).delivered :=
      isGroups ▸ List.mem_flatten_of_mem isGroup member
    rw [served] at delivered
    rcases List.mem_map.mp (mem_of_mem_delivered delivered) with ⟨m, -, rfl⟩
    exact connected_received m
  have longer : Extends back.flatten client.ended
      (⟨[], [], List.forall_mem_nil _, client.ended⟩ : Net) client := by
    refine ⟨empty', reads', fun read member => ?_, rfl⟩
    rcases List.mem_flatten.mp member with ⟨block, isBlock, inBlock⟩
    exact bring' block isBlock read inBlock
  rw [← served, ← isGroups]
  exact answersGoOn_of_groups answerable connected (blocks_of_cuts cuts bytes) _ client rfl
    (Nat.zero_le _) longer

end Answers

/-! ## Two requests on one connection -/

def firstReceived : Request := (Sending.mk (Request.search (str "/a") [])
  [.setHeader (str "Connection") (str "keep-alive")]).received

def secondReceived : Request := (Sending.mk (Request.search (str "/b") [])
  [.write (str "x")]).received

theorem deliverRequest_first :
    deliverRequest echoPath firstReceived = [okLine, echoBlock "/a"] := by
  decide +kernel

theorem deliverRequest_second :
    deliverRequest echoPath secondReceived =
      [okLine, str "Content-Length: 2\r\n\r\n/b"] := by
  decide +kernel

theorem exists_delivery_of_two : ∃ s, ((deliverySystem echoPath
    [firstReceived, secondReceived] 1).restrict Orderly).Reachable s ∧ s.AllDelivered ∧
      s.wire = [okLine, echoBlock "/a", okLine, str "Content-Length: 2\r\n\r\n/b"].flatten := by
  have first : (Delivery.start (.deliver firstReceived) : Delivery echoPath).left =
      [okLine, echoBlock "/a"] := by
    rw [Delivery.start_left, Job.messages_deliver, deliverRequest_first]
  have second : (Delivery.start (.deliver secondReceived) : Delivery echoPath).left =
      [okLine, str "Content-Length: 2\r\n\r\n/b"] := by
    rw [Delivery.start_left, Job.messages_deliver, deliverRequest_second]
  have arrived := ((TransitionSystem.Reachable.start
    (T := deliverySystem echoPath [firstReceived, secondReceived] 1) rfl).next
      (.arrive rfl (.enqueue (Job.deliver firstReceived) rfl))).next
      (.arrive rfl (.enqueue (Job.deliver secondReceived) rfl))
  have taken := arrived.next (.take (.take (w := 0) rfl rfl))
  have line := taken.next (.asyncWrite (w := 0) first rfl rfl)
  have block := line.next (.asyncWrite (w := 0) rfl rfl rfl)
  have finished := block.next (.finish (.finish (w := 0) rfl) rfl rfl)
  have taken' := finished.next (.take (.take (w := 0) rfl rfl))
  have line' := taken'.next (.asyncWrite (w := 0) second rfl rfl)
  have block' := line'.next (.asyncWrite (w := 0) rfl rfl rfl)
  have finished' := block'.next (.finish (.finish (w := 0) rfl) rfl rfl)
  refine ⟨_, finished'.restrict fun _ _ _ => .inl rfl, ⟨rfl, rfl, ?_⟩, rfl⟩
  exact Fin.forall_fin_one.mpr rfl

/-- The bytes of the two responses. -/
def firstAnswer : Bytes := okLine ++ echoBlock "/a"

def secondAnswer : Bytes := okLine ++ str "Content-Length: 2\r\n\r\n/b"

theorem allAnswerable_single {req : Request} (answerable : Answerable echoPath req) :
    AllAnswerable echoPath [req] where
  each := List.forall_mem_singleton.mpr answerable
  ends := List.forall_mem_nil _

theorem answerable_first : Answerable echoPath firstReceived := by decide +kernel

theorem answerable_second : Answerable echoPath secondReceived := by decide +kernel

/-- A connection that brings the two responses. -/
def twoAnswersNet : Net := ⟨[], [firstAnswer, secondAnswer], by decide +kernel, true⟩

/-- Each response is read as soon as it is there. -/
theorem exchange_of_two : ∃ t, Reads responseDialect twoAnswersNet
    [answered echoPath firstReceived, answered echoPath secondReceived] t ∧ t.remaining = [] := by
  have delivered : (serve twoReadsNet).delivered = [firstReceived, secondReceived] := by
    decide +kernel
  obtain ⟨state, reached, all, wire⟩ := exists_delivery_of_two
  have requests : (serveRequests twoReadsNet.ended
      ([twoRequests].flatten.map Sending.received)).delivered =
        [firstReceived, secondReceived] := by
    decide +kernel
  have noRest : twoReadsNet.buf = [] := rfl
  have brings : twoAnswersNet.reads = [[firstAnswer], [secondAnswer]].flatten := rfl
  have groups : [[firstReceived], [secondReceived]].flatten = (serve twoReadsNet).delivered :=
    delivered.symm
  have returns := exchange (List.forall_mem_singleton.mpr twoRequests_fits)
    (.cons flatten_twoReads .nil) (List.forall_mem_singleton.mpr twoReads_bring) noRest rfl
    (by decide) (by rw [delivered]; exact reached) all
    (List.forall_mem_cons.mpr ⟨allAnswerable_single answerable_first,
      List.forall_mem_singleton.mpr (allAnswerable_single answerable_second)⟩)
    groups (by rw [wire]; rfl) rfl brings (by decide)
    (.cons (by decide +kernel) (.cons (by decide +kernel) .nil))
  rw [requests] at returns
  exact returns

end Ahttpd

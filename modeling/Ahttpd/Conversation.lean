import Ahttpd.ClientRequest
import Ahttpd.Dispatch
import Ahttpd.Exchange

/-!
# The client and the server together

A request of the client, the server behind the connection and the response on
its way back: whatever the user adds to the request and the server has
registered, and however reads and workers interleave, `res_handler` is called
once, with the answer of the handler that has the longest matching path, or
with the stock page when there is none (`client_gets_answer`).
-/

namespace Ahttpd

open Basis SubHandlers

section

variable {handleRequest handleRequest' : RequestHandler} {req : Request} {status : UInt16}

/-- What a handler is asked. -/
def Request.asked (req : Request) : Request := req.withPackage req.toPackage.discardConnection

theorem answerOps_congr (same : handleRequest req.asked = handleRequest' req.asked) :
    answerOps handleRequest req = answerOps handleRequest' req := by
  change handleRequest (req.withPackage _) = _ at same
  unfold answerOps
  rw [same]
  rfl

theorem answered_congr (same : handleRequest req.asked = handleRequest' req.asked) :
    answered handleRequest req = answered handleRequest' req := by
  rw [answered, answered, answer, answer, answerOps_congr same]

theorem Answerable.congr (answerable : Answerable handleRequest' req)
    (same : handleRequest req.asked = handleRequest' req.asked) :
    Answerable handleRequest req := by
  obtain ⟨keeps, plain, readable⟩ := answerable
  have ops := answerOps_congr same
  refine ⟨?_, ?_, ?_⟩
  · change ResponseOp.discardConnection ∉ (handleRequest req.asked).2
    rw [same]
    exact keeps
  · rw [answer, ops]
    exact plain
  · rw [answer, ops]
    exact readable

/-! ## Stock pages -/

/-- The handler sets the status and nothing else. -/
def setsStatus (status : UInt16) : RequestHandler := fun req => (req, [.setStatus status])

theorem answerOps_setsStatus (closes : req.keepAlive = false) :
    answerOps (setsStatus status) req = [.setStatus status] := by
  have asked : (req.withPackage req.toPackage.discardConnection).keepAlive = false := closes
  unfold answerOps setsStatus
  dsimp only
  rw [asked]
  rfl

/-- What the client gets from it is the stock page. -/
theorem stock_page (status : UInt16) (closes : req.keepAlive = false)
    (known : status.toNat ∈ parseStatusCases) (other : status ≠ Ok)
    (short : (statusBody status).length < 2 ^ 31) :
    Answerable (setsStatus status) req ∧ (answered (setsStatus status) req).status = status ∧
      (answered (setsStatus status) req).body = statusBody status := by
  have ops : answerOps (setsStatus status) req = [.setStatus status] :=
    answerOps_setsStatus closes
  have isAnswer : answer (setsStatus status) req = ({} : Response).setStatus status := by
    rw [answer, ops]
    rfl
  have none : messageOps [.setStatus status] = [] := rfl
  have stock : (({} : Response).setStatus status).stockBody = statusBody status := if_neg other
  refine ⟨⟨?_, ?_, ?_⟩, ?_, ?_⟩
  · simp [setsStatus]
  · rw [isAnswer]
    exact ⟨List.forall_mem_nil _, by change ¬DigitField [SP]; decide⟩
  · rw [isAnswer, ops, none, stock]
    refine ⟨List.forall_mem_nil _, ⟨Nat.zero_le _, List.forall_mem_nil _⟩, ?_, ?_⟩
    · exact fun flushed => absurd flushed List.not_mem_nil
    · exact fun _ => short
  · rw [answered, isAnswer]
    have line : (({} : Response).setStatus status).statusLine.2.1 = knownStatus status := by
      rw [Response.statusLine, if_pos (.inl rfl)]
      rfl
    exact line.trans (if_pos known)
  · rw [answered, isAnswer, ops, none]
    change Package.bodyRead (({} : Response).setStatus status).stockBody {} [] = _
    rw [stock]
    rfl

/-! ## What the handlers of a server answer -/

/-- The answer to a request that does not ask to keep the connection: a stock
page, or what the handler with the longest path makes of it. -/
inductive Answers (registrations : List (Bytes × RequestHandler)) (req : Request) :
    Response → Prop
  | notImplemented {res} : methodImplemented req.method = false →
      res.status = NotImplemented → res.body = statusBody NotImplemented →
      Answers registrations req res
  | notFound {res} : methodImplemented req.method = true →
      (∀ r ∈ registrations, isPathMatch req.path r.1 = false) →
      res.status = NotFound → res.body = statusBody NotFound → Answers registrations req res
  | handled {r} : methodImplemented req.method = true → r ∈ registrations →
      Longest req.path registrations r → Answers registrations req (answered r.2 req)

theorem answers_of_register {registrations : List (Bytes × RequestHandler)}
    (closes : req.keepAlive = false)
    (answerable : ∀ r ∈ registrations, Longest req.path registrations r → Answerable r.2 req) :
    Answerable (SubHandlers.handleRequest (register registrations)) req ∧
      Answers registrations req
        (answered (SubHandlers.handleRequest (register registrations)) req) := by
  have notFound := stock_page NotFound closes (by decide) (by decide)
    (by decide +kernel)
  have notImplemented := stock_page NotImplemented closes (by decide) (by decide)
    (by decide +kernel)
  cases implemented : methodImplemented req.method with
  | false =>
      have same : SubHandlers.handleRequest (register registrations) req.asked =
          setsStatus NotImplemented req.asked := by
        have asked : methodImplemented req.asked.method = false := implemented
        rw [SubHandlers.handleRequest, asked]
        rfl
      rw [answered_congr same]
      exact ⟨notImplemented.1.congr same,
        .notImplemented implemented notImplemented.2.1 notImplemented.2.2⟩
  | true =>
      have asked : methodImplemented req.asked.method = true := implemented
      rcases handleRequest_cases registrations asked with
        ⟨same, none⟩ | ⟨r, member, same, longest⟩
      · have same' : SubHandlers.handleRequest (register registrations) req.asked =
            setsStatus NotFound req.asked := same
        rw [answered_congr same']
        exact ⟨notFound.1.congr same', .notFound implemented none notFound.2.1 notFound.2.2⟩
      · rw [answered_congr same]
        exact ⟨(answerable r member longest).congr same, .handled implemented member longest⟩

end

/-! ## One request -/

section

variable {client : Client} {method url : Bytes} {target : Target} {around : Surroundings}
  {registrations : List (Bytes × RequestHandler)} {n : Nat} {server : Net}

/-- The server delivers the request and reads no further. -/
theorem serve_of_sending (quiet : around.Quiet)
    (readable : (client.sending method target around).Readable)
    (settled : server.buf.length ≤ maxRead)
    (comes : server.remaining = (client.sending method target around).bytes) :
    serve server = ⟨[(client.sending method target around).received], .closed⟩ := by
  apply Loop.run_of_halt
  change serveStep ⟨server, []⟩ = _
  rw [serveStep_of_calls (parse_of_sending readable settled comes), received_closes quiet]
  exact if_neg Bool.false_ne_true

/-- **A client gets its answer.** The request goes over the connection, to one
worker of the pool and to the handlers of the server, and `res_handler` is
called once, with what they answer. -/
theorem client_gets_answer (understood : splitUrl url = some target)
    (connected : around.connected = true) (quiet : around.Quiet)
    (readable : (client.sending method target around).Readable)
    (comes : server.remaining = (client.request method url around).sent.flatten)
    (settled : server.buf.length ≤ maxRead) (positive : 0 < n)
    {state : DeliveryState (handleRequest (register registrations)) n}
    (reached : (deliverySystem (handleRequest (register registrations))
      (serve server).delivered n).Reachable state) (all : state.AllDelivered)
    (answerable : ∀ r ∈ registrations,
      Longest (client.sending method target around).received.path registrations r →
        Answerable r.2 (client.sending method target around).received)
    (returns : around.net.remaining = state.wire) (settled' : around.net.buf.length ≤ maxRead) :
    (serve server).outcome = .closed ∧
      ∃ res, Answers registrations (client.sending method target around).received res ∧
        (client.request method url around).calls =
          [.reqHandler (some (client.newRequest method target around.now)),
            .resHandler (some res)] := by
  obtain ⟨sent, calls⟩ := client.request_of_connected method understood connected
  rw [sent] at comes
  have served := serve_of_sending quiet readable settled comes
  obtain ⟨willAnswer, answers⟩ := answers_of_register (received_closes quiet) answerable
  have wire := (orderedDelivery_of_waits positive (waits_of_one positive
    (served ▸ reached))).all_complete all
  rw [← returns, List.flatMap_singleton, complete,
    deliverRequest_eq_sent willAnswer (connected_received _)] at wire
  obtain ⟨t, run, -⟩ := Response.parse_of_response willAnswer.plain (unsent_answer _ _)
    willAnswer.readable settled' (wire.trans (List.append_nil _).symm) (.inl rfl)
  refine ⟨by rw [served], _, answers, ?_⟩
  rw [calls, run]
  rfl

end

/-! ## A request for a path that is registered -/

def aTarget : Target := ⟨str "http", [], str "h", str "80", str "/a"⟩

theorem splitUrl_aTarget : splitUrl (str "http://h/a") = some aTarget := by decide +kernel

def aSending : Sending := ({} : Client).sending (str "GET") aTarget (calm silent)

theorem readable_aSending : aSending.Readable := by decide +kernel

/-- The server has one handler. -/
def aServer : List (Bytes × RequestHandler) := [(str "/a", echoPath)]

theorem deliverRequest_aServer : deliverRequest (handleRequest (register aServer))
    aSending.received = [okLine, str "Content-Length: 2\r\n\r\n/a"] := by
  decide +kernel

theorem answerable_aSending : Answerable echoPath aSending.received := by decide +kernel

theorem exists_delivery_of_aSending : ∃ s, (deliverySystem (handleRequest (register aServer))
    [aSending.received] 2).Reachable s ∧ s.AllDelivered ∧
      s.wire = [okLine, str "Content-Length: 2\r\n\r\n/a"].flatten := by
  have start : (Delivery.start (.deliver aSending.received) :
      Delivery (handleRequest (register aServer))).left =
        [okLine, str "Content-Length: 2\r\n\r\n/a"] := by
    rw [Delivery.start_left, Job.messages_deliver, deliverRequest_aServer]
  have arrived := (TransitionSystem.Reachable.start
    (T := deliverySystem (handleRequest (register aServer)) [aSending.received] 2) rfl).next
      (.arrive rfl (.enqueue (Job.deliver aSending.received) rfl))
  have taken := arrived.next (.take (.take (w := 1) rfl rfl))
  have line := taken.next (.asyncWrite (w := 1) start rfl rfl)
  have block := line.next (.asyncWrite (w := 1) rfl rfl rfl)
  have finished := block.next (.finish (.finish (w := 1) rfl) rfl rfl)
  exact ⟨_, finished, ⟨rfl, rfl, Fin.forall_fin_two.mpr ⟨rfl, rfl⟩⟩, rfl⟩

/-- The connection brings the answer. -/
def withAnswer : Surroundings :=
  calm (oneRead [okLine, str "Content-Length: 2\r\n\r\n/a"].flatten (by decide))

/-- Two workers, one of which does nothing. -/
theorem client_gets_answer_of_a :
    ∃ res, Answers aServer aSending.received res ∧
      (({} : Client).request (str "GET") (str "http://h/a") withAnswer).calls =
        [.reqHandler (some aSending.req), .resHandler (some res)] := by
  obtain ⟨state, reached, all, wire⟩ := exists_delivery_of_aSending
  have quiet : withAnswer.Quiet := quiet_calm _
  have comes : (oneRead aSending.bytes (by decide +kernel)).remaining = aSending.bytes :=
    oneRead_remaining _ _
  have served : serve (oneRead aSending.bytes (by decide +kernel)) =
      ⟨[aSending.received], .closed⟩ :=
    serve_of_sending quiet readable_aSending (by exact Nat.zero_le _) comes
  have connected : withAnswer.connected = true := rfl
  obtain ⟨sent, -⟩ := ({} : Client).request_of_connected (str "GET") splitUrl_aTarget connected
  have returns : withAnswer.net.remaining = state.wire :=
    (oneRead_remaining _ (by decide)).trans wire.symm
  exact (client_gets_answer (n := 2) splitUrl_aTarget connected
    quiet readable_aSending (comes.trans (congrArg List.flatten sent).symm)
    (by exact Nat.zero_le _) (by decide) (by rw [served]; exact reached) all
    (List.forall_mem_singleton.mpr fun _ => answerable_aSending)
    returns (by exact Nat.zero_le _)).2

end Ahttpd

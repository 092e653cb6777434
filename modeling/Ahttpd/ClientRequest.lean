import Ahttpd.Cookie.Response
import Ahttpd.Pipeline
import Ahttpd.UrlRequest

/-!
# A request of the client

`Client::request` from its URL to the last call of its two handlers. The user
works on the request in `req_handler`; what the client adds behind that, and
the destruction of the request, are operations like those of the user, so the
request goes out as one message (`Client.sending`). Unless the user flushes it,
the server reads from it that the connection is not to be kept
(`received_closes`), and the headers of the user and of the URL.
-/

namespace Ahttpd

open Basis

/-- A call of one of the handlers that `Client::request` is given. -/
inductive ClientCall
  | reqHandler (req : Option Request)
  | resHandler (res : Option Response)
  deriving DecidableEq

/-- What a request meets: whether it gets a connection, what `req_handler` does,
what is read from the connection, the times of the request and of the response,
and what the dates of its cookies are read with. -/
structure Surroundings where
  connected : Bool
  reqHandler : Request → List MessageOp
  net : Net
  zone : Int
  now : Int
  later : Int
  isdst : Nat → Nat → Int

/-- The client after a request, the calls of the handlers and the messages that
were written. -/
structure ClientRun where
  client : Client
  calls : List ClientCall
  sent : List Bytes

/-- A message that user code works on. -/
def Message.execAll : Message → List MessageOp → Message
  | m, [] => m
  | m, op :: ops => (m.exec op).1.execAll ops

namespace Client

/-- What is done to a request when `req_handler` has returned. -/
def closingOps (target : Target) (m : Message) : List MessageOp :=
  (match m.package.getHeader (str "Host") with
    | some _ => []
    | none => [.addHeader (str "Host") (target.host ++ str ":" ++ target.port)]) ++
  [.setHeader (str "Connection") (str "close")]

/-- The request, with all that is done to it. -/
def sending (client : Client) (method : Bytes) (target : Target) (around : Surroundings) :
    Sending :=
  let req := client.newRequest method target around.now
  let ops := around.reqHandler req
  ⟨req, ops ++ closingOps target ((Message.request req).execAll ops)⟩

/-- What the callback of `parseResponse` does to the jar. -/
def receive (around : Surroundings) (host : Bytes) (client : Client) : Option Response → Client
  | some res =>
      if client.enableCookie then
        client.addCookieToCookieJar (res.parseCookie around.zone around.later around.isdst) host
      else client
  | none => client

/-- `Client::request`. -/
def request (client : Client) (method url : Bytes) (around : Surroundings) : ClientRun :=
  match splitUrl url with
  | none => ⟨client, [.resHandler none], []⟩
  | some target =>
      if !around.connected then ⟨client, [.reqHandler none, .resHandler none], []⟩
      else
        let purged :=
          if client.enableCookie then
            (client.addCookieInPlace (startRequest method target) target.scheme target.host
              around.now).1
          else client
        let sending := client.sending method target around
        let parsed := parseResponse around.net
        { client := parsed.calls.foldl (receive around target.host) purged
          calls := .reqHandler (some sending.req) :: parsed.calls.map .resHandler
          sent := (Message.request sending.req).sent sending.ops }

end Client

section

variable {client : Client} {method url : Bytes} {target : Target} {around : Surroundings}

/-- Without a flush nothing is sent before the end, and the user's operations
are those on the package. -/
theorem package_execAll {m : Message} {ops : List MessageOp} (quiet : .flush ∉ ops) :
    (m.execAll ops).package = ops.foldl Package.edit m.package := by
  induction ops generalizing m with
  | nil => rfl
  | cons op ops ih =>
      have other : op ≠ .flush := fun same => quiet (same ▸ List.mem_cons_self)
      have later : .flush ∉ ops := fun member => quiet (List.mem_cons_of_mem _ member)
      rw [Message.execAll, ih later, List.foldl_cons]
      congr 1
      cases m with
      | request req => cases op <;> first | rfl | exact absurd rfl other
      | response res => cases op <;> first | rfl | exact absurd rfl other

theorem flush_not_mem_closingOps (target : Target) (m : Message) :
    MessageOp.flush ∉ Client.closingOps target m := by
  unfold Client.closingOps
  split <;> simp

/-- Only the headers of the request come from the jar and the URL's user. -/
theorem newRequest_eq (client : Client) (method : Bytes) (target : Target) (now : Int) :
    client.newRequest method target now =
      { Client.startRequest method target with
        headers := (client.newRequest method target now).headers } := by
  obtain ⟨pairs, req, carries, isNew⟩ := client.exists_newRequest method target now
  rw [isNew]
  split
  · exact carries.rest
  · rw [Request.basicAuth, carries.rest]
    rfl

theorem unsent_sending : (client.sending method target around).req.Unsent := by
  change (client.newRequest method target around.now).Unsent
  rw [newRequest_eq]
  unfold Client.startRequest Request.setTarget
  split <;> exact ⟨rfl, rfl, rfl⟩

/-- The headers of the request when `req_handler` returns. -/
def userHeaders (client : Client) (method : Bytes) (target : Target) (around : Surroundings) :
    HeaderMap :=
  let req := client.newRequest method target around.now
  (around.reqHandler req).foldl HeaderMap.exec req.headerMap

/-- What the client adds to them. -/
def HeaderMap.closed (target : Target) (m : HeaderMap) : HeaderMap :=
  (if m (headerKey (str "Host")) = [] then
      m.add (headerKey (str "Host")) (target.host ++ str ":" ++ target.port)
    else m).replace (headerKey (str "Connection")) (str "close")

theorem headerMap_foldl_edit (p : Package) (ops : List MessageOp) :
    (ops.foldl Package.edit p).headerMap = ops.foldl HeaderMap.exec p.headerMap := by
  induction ops generalizing p with
  | nil => rfl
  | cons op ops ih => rw [List.foldl_cons, List.foldl_cons, ih, Package.headerMap_edit]

theorem exec_closingOps (target : Target) (m : Message) :
    (Client.closingOps target m).foldl HeaderMap.exec m.package.headerMap =
      m.package.headerMap.closed target := by
  unfold Client.closingOps HeaderMap.closed
  rw [Package.getHeader_eq]
  cases given : m.package.headerMap (headerKey (str "Host")) with
  | nil =>
      rw [if_pos rfl]
      rfl
  | cons value values =>
      rw [if_neg (List.cons_ne_nil _ _)]
      rfl

/-- Whether the user flushes the request. -/
def Surroundings.Quiet (around : Surroundings) : Prop :=
  ∀ req, .flush ∉ around.reqHandler req

theorem flush_not_mem_sending (quiet : around.Quiet) :
    .flush ∉ (client.sending method target around).ops := by
  intro member
  rcases List.mem_append.mp member with user | closing
  · exact quiet _ user
  · exact flush_not_mem_closingOps _ _ closing

/-- The headers of the request as the server gets it. -/
theorem headerMap_sending (quiet : around.Quiet) :
    (client.sending method target around).received.headerMap =
      ((userHeaders client method target around).closed target).framed false
        ((client.sending method target around).req.bodyRead []
          (client.sending method target around).ops).length := by
  let req := client.newRequest method target around.now
  have user : ((Message.request req).execAll (around.reqHandler req)).package.headerMap =
      userHeaders client method target around := by
    rw [package_execAll (quiet _), headerMap_foldl_edit]
    rfl
  rw [Sending.received, Request.headerMap_received unsent_sending.whole,
    headersSent_of_quiet (flush_not_mem_sending quiet), Client.sending, List.foldl_append]
  congr 1
  change (Client.closingOps target ((Message.request req).execAll
    (around.reqHandler req))).foldl HeaderMap.exec (userHeaders client method target around) = _
  rw [← user, exec_closingOps]

theorem framed_of_ne {m : HeaderMap} {k : Bytes} {length : Nat}
    (other : k ≠ headerKey (str "Content-Length")) : m.framed false length k = m k := by
  unfold HeaderMap.framed
  rw [if_neg Bool.false_ne_true]
  split
  · exact Function.update_of_ne other _ _
  · rfl

/-- The user leaves the headers of this name as they are. -/
def Surroundings.Leaves (around : Surroundings) (hName : Bytes) : Prop :=
  ∀ req, ∀ op ∈ around.reqHandler req, op.key? ≠ some (headerKey hName)

theorem userHeaders_of_leaves {hName : Bytes} (leaves : around.Leaves hName) :
    userHeaders client method target around (headerKey hName) =
      (client.newRequest method target around.now).headerMap (headerKey hName) :=
  HeaderMap.foldl_exec_of_ne (leaves _)

/-- The headers that the client does not set itself. -/
theorem getHeaders_received_of_ne {hName : Bytes} (quiet : around.Quiet)
    (notHost : headerKey hName ≠ headerKey (str "Host"))
    (notConnection : headerKey hName ≠ headerKey (str "Connection"))
    (notLength : headerKey hName ≠ headerKey (str "Content-Length")) :
    (client.sending method target around).received.getHeaders hName =
      userHeaders client method target around (headerKey hName) := by
  rw [Package.getHeaders_eq, headerMap_sending quiet, framed_of_ne notLength, HeaderMap.closed,
    Multimap.replace, Function.update_of_ne notConnection]
  split
  · exact Function.update_of_ne notHost _ _
  · rfl

/-- A host that the user does not set is that of the URL. -/
theorem getHeaders_host (quiet : around.Quiet)
    (unset : userHeaders client method target around (headerKey (str "Host")) = []) :
    (client.sending method target around).received.getHeaders (str "Host") =
      [target.host ++ str ":" ++ target.port] := by
  rw [Package.getHeaders_eq, headerMap_sending quiet, framed_of_ne (by decide),
    HeaderMap.closed, Multimap.replace, Function.update_of_ne (by decide), if_pos unset,
    Multimap.add, Function.update_self, unset]
  rfl

/-- The server reads that the connection is not to be kept. -/
theorem received_closes (quiet : around.Quiet) :
    (client.sending method target around).received.keepAlive = false := by
  have closes : (client.sending method target around).received.getHeader (str "Connection") =
      some (str "close") := by
    rw [Package.getHeader_eq, headerMap_sending quiet, framed_of_ne (by decide),
      HeaderMap.closed, Multimap.replace, Function.update_self]
    rfl
  rw [Request.keepAlive, closes]
  rfl

/-- The request line is that of the target. -/
theorem received_line (client : Client) (method : Bytes) (target : Target)
    (around : Surroundings) : (client.sending method target around).received.method =
      (Client.startRequest method target).method ∧
    (client.sending method target around).received.path =
      (Client.startRequest method target).path ∧
    (client.sending method target around).received.query =
      (Client.startRequest method target).query := by
  have line (req : Request) (ops : List MessageOp) : (req.received ops).method = req.method ∧
      (req.received ops).path = req.path ∧ (req.received ops).query = req.query := by
    unfold Request.received Request.parseCookie
    split <;> exact ⟨rfl, rfl, rfl⟩
  have isNew : (client.sending method target around).req =
      { Client.startRequest method target with
        headers := (client.newRequest method target around.now).headers } :=
    newRequest_eq client method target around.now
  obtain ⟨isMethod, isPath, isQuery⟩ := line (client.sending method target around).req
    (client.sending method target around).ops
  rw [isNew] at isMethod isPath isQuery
  rw [Sending.received, isNew]
  exact ⟨isMethod, isPath, isQuery⟩

/-! ## The run -/

theorem Client.request_of_connected (client : Client) (method : Bytes)
    (understood : splitUrl url = some target) (connected : around.connected = true) :
    (client.request method url around).sent =
        (Message.request (client.sending method target around).req).sent
          (client.sending method target around).ops ∧
      (client.request method url around).calls =
        .reqHandler (some (client.newRequest method target around.now)) ::
          (parseResponse around.net).calls.map .resHandler := by
  simp only [Client.request, understood, connected]
  exact ⟨rfl, rfl⟩

/-- The server reads one request off what the client sends. -/
theorem parse_of_sending {server : Net} (readable : (client.sending method target around).Readable)
    (settled : server.buf.length ≤ maxRead)
    (comes : server.remaining = (client.sending method target around).bytes) :
    (parseRequest server).calls = [some (client.sending method target around).received] := by
  obtain ⟨t, run, -⟩ := Request.parse_of_request readable.spelled readable.plain readable.unsent
    readable.readable settled (comes.trans (List.append_nil _).symm) (.inl rfl)
  rw [run]
  rfl

end

theorem nothing_bounded : ∀ read ∈ ([] : List Bytes), read.length ≤ maxRead :=
  List.forall_mem_nil _

/-- A connection that brings nothing. -/
def silent : Net := ⟨[], [], nothing_bounded, true⟩

/-- A connection with a user who does nothing. -/
def calm (net : Net) : Surroundings := ⟨true, fun _ => [], net, 0, 0, 0, fun _ _ => 0⟩

theorem quiet_calm (net : Net) : (calm net).Quiet := fun _ => List.not_mem_nil

theorem leaves_calm (net : Net) (hName : Bytes) : (calm net).Leaves hName :=
  fun _ => List.forall_mem_nil _

end Ahttpd

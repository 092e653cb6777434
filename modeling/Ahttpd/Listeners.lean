import Ahttpd.Basis.Transition
import Ahttpd.Bytes

/-!
# The listeners of the server

The accept loops of `ServerImpl`. The handler of an accept or a handshake hands
the connection over and starts the next accept, except where an accept fails:
there it only writes to the log. So each listener goes on as long as no accept
of it has failed, and a failed handshake stops nothing
(`keepsAccepting_iff`). Whatever fails, a connection is handed over once and
after its accept and its handshake have succeeded (`handed_of_reachable`).
-/

namespace Ahttpd

open Basis

/-- `boost::system::error_code`, with what `message()` says. -/
inductive ErrorCode
  | success
  | operationAborted (message : Bytes)
  | other (message : Bytes)
  deriving DecidableEq

/-- A connection object, by when it was made. -/
inductive ConnectionId
  | tcp (n : Nat)
  | ssl (n : Nat)
  deriving DecidableEq

/-- An asynchronous operation for the socket of a connection. -/
inductive AcceptOp
  | tcpAccept (n : Nat)
  | sslAccept (n : Nat)
  | handshake (n : Nat)
  deriving DecidableEq

namespace AcceptOp

def isTcpAccept : AcceptOp → Bool
  | .tcpAccept _ => true
  | .sslAccept _ | .handshake _ => false

def isSslAccept : AcceptOp → Bool
  | .sslAccept _ => true
  | .tcpAccept _ | .handshake _ => false

end AcceptOp

/-- `ServerImpl`, with the number of connections made, the connections an
operation of `tcp_acceptor_`, of `ssl_acceptor_` or a handshake is outstanding
for, and a record of the calls of the request handler, of the log and of the
operations that have completed. -/
structure ServerImpl where
  newTcpConnection : Option Nat := none
  newSslConnection : Option Nat := none
  tcpCreated : Nat := 0
  sslCreated : Nat := 0
  tcpAccepts : List Nat := []
  sslAccepts : List Nat := []
  handshakes : List Nat := []
  handed : List (Option ConnectionId) := []
  log : List Bytes := []
  completed : List (AcceptOp × ErrorCode) := []
  deriving DecidableEq

namespace ServerImpl

/-- `new_tcp_connection_.reset(new TcpConnection(service_))`. -/
def resetTcp (s : ServerImpl) : ServerImpl :=
  { s with newTcpConnection := some s.tcpCreated, tcpCreated := s.tcpCreated + 1 }

/-- `new_ssl_connection_.reset(new SslConnection(service_, ssl_context_))`. -/
def resetSsl (s : ServerImpl) : ServerImpl :=
  { s with newSslConnection := some s.sslCreated, sslCreated := s.sslCreated + 1 }

/-- `tcp_acceptor_.async_accept` for the new connection. Without one there is no
socket to accept for. -/
def asyncTcpAccept (s : ServerImpl) : ServerImpl :=
  { s with tcpAccepts := s.tcpAccepts ++ s.newTcpConnection.toList }

def asyncSslAccept (s : ServerImpl) : ServerImpl :=
  { s with sslAccepts := s.sslAccepts ++ s.newSslConnection.toList }

/-- `new_ssl_connection_->asyncHandshake`. -/
def asyncHandshake (s : ServerImpl) : ServerImpl :=
  { s with handshakes := s.handshakes ++ s.newSslConnection.toList }

def requestHandler (s : ServerImpl) (conn : Option ConnectionId) : ServerImpl :=
  { s with handed := s.handed ++ [conn] }

/-- `Log("ERROR")`. -/
def logError (s : ServerImpl) (message : Bytes) : ServerImpl :=
  { s with log := s.log ++ [message] }

def handleTcpAccept (s : ServerImpl) : ErrorCode → ServerImpl
  | .success => (s.requestHandler (s.newTcpConnection.map .tcp)).resetTcp.asyncTcpAccept
  | .operationAborted _ => s
  | .other message => s.logError message

def handleSslAccept (s : ServerImpl) : ErrorCode → ServerImpl
  | .success => s.asyncHandshake
  | .operationAborted _ => s
  | .other message => s.logError message

/-- The lambda that `handleSslAccept` gives to `asyncHandshake`. -/
def handleHandshake (s : ServerImpl) (e : ErrorCode) : ServerImpl :=
  let s := match e with
    | .success => s.requestHandler (s.newSslConnection.map .ssl)
    | .operationAborted message | .other message => s.logError message
  s.resetSsl.asyncSslAccept

/-- The connections that `Server::Server` makes for the ports of the
configuration. -/
def construct (http https : Bool) : ServerImpl :=
  let s : ServerImpl := if http then ({} : ServerImpl).resetTcp else {}
  if https then s.resetSsl else s

/-- `Server::startAccept`. -/
def startAccept (s : ServerImpl) : ServerImpl := s.asyncTcpAccept.asyncSslAccept

/-- The operation is outstanding. -/
def Pending (s : ServerImpl) : AcceptOp → Prop
  | .tcpAccept n => n ∈ s.tcpAccepts
  | .sslAccept n => n ∈ s.sslAccepts
  | .handshake n => n ∈ s.handshakes

/-- The completion handler of an operation. -/
def complete (s : ServerImpl) (op : AcceptOp) (ec : ErrorCode) : ServerImpl :=
  let s := { s with completed := s.completed ++ [(op, ec)] }
  match op with
  | .tcpAccept n => { s with tcpAccepts := s.tcpAccepts.erase n }.handleTcpAccept ec
  | .sslAccept n => { s with sslAccepts := s.sslAccepts.erase n }.handleSslAccept ec
  | .handshake n => { s with handshakes := s.handshakes.erase n }.handleHandshake ec

/-- The runs of a server with these ports: outstanding operations complete, one
handler after the other. -/
def listeners (http https : Bool) : TransitionSystem ServerImpl where
  init s := s = (construct http https).startAccept
  step s t := ∃ op ec, s.Pending op ∧ t = s.complete op ec

/-- The accept of a connection has succeeded, and its handshake where it has
one. -/
def Succeeded (s : ServerImpl) : ConnectionId → Prop
  | .tcp n => (.tcpAccept n, .success) ∈ s.completed
  | .ssl n => (.sslAccept n, .success) ∈ s.completed ∧ (.handshake n, .success) ∈ s.completed

/-- Every connection that was handed over has succeeded, and none was handed
over twice. -/
structure HandsOver (s : ServerImpl) : Prop where
  once : s.handed.Nodup
  succeeded : ∀ conn ∈ s.handed, ∃ id, conn = some id ∧ s.Succeeded id

/-- One accept of the TCP listener and one accept or handshake of the TLS
listener are outstanding, where there is such a listener. -/
structure KeepsAccepting (http https : Bool) (s : ServerImpl) : Prop where
  tcp : s.tcpAccepts.length = if http then 1 else 0
  ssl : s.sslAccepts.length + s.handshakes.length = if https then 1 else 0
  handsOver : HandsOver s

/-! ## The invariant -/

/-- An accept of this kind has failed. -/
def Failed (kind : AcceptOp → Bool) (s : ServerImpl) : Prop :=
  ∃ op ec, (op, ec) ∈ s.completed ∧ kind op = true ∧ ec ≠ .success

/-- What the TCP listener is doing: there is none, it accepts for a new
connection that has not been handed over, or an accept of it has failed. -/
inductive TcpListens (http : Bool) (s : ServerImpl) : Prop
  | off (disabled : http = false) (idle : s.tcpAccepts = []) (sound : ¬ s.Failed (·.isTcpAccept))
  | accepting {n : Nat} (enabled : http = true) (sound : ¬ s.Failed (·.isTcpAccept))
      (isNew : s.newTcpConnection = some n) (accepts : s.tcpAccepts = [n])
      (made : n < s.tcpCreated) (fresh : ∀ m, some (.tcp m) ∈ s.handed → m < n)
  | stopped (enabled : http = true) (failed : s.Failed (·.isTcpAccept)) (idle : s.tcpAccepts = [])

/-- What the TLS listener is doing. -/
inductive SslListens (https : Bool) (s : ServerImpl) : Prop
  | off (disabled : https = false) (idle : s.sslAccepts = []) (idle' : s.handshakes = [])
      (sound : ¬ s.Failed (·.isSslAccept))
  | accepting {n : Nat} (enabled : https = true) (sound : ¬ s.Failed (·.isSslAccept))
      (isNew : s.newSslConnection = some n) (accepts : s.sslAccepts = [n])
      (idle' : s.handshakes = []) (made : n < s.sslCreated)
      (fresh : ∀ m, some (.ssl m) ∈ s.handed → m < n)
  | handshaking {n : Nat} (enabled : https = true) (sound : ¬ s.Failed (·.isSslAccept))
      (isNew : s.newSslConnection = some n) (idle : s.sslAccepts = []) (shakes : s.handshakes = [n])
      (accepted : (.sslAccept n, .success) ∈ s.completed) (made : n < s.sslCreated)
      (fresh : ∀ m, some (.ssl m) ∈ s.handed → m < n)
  | stopped (enabled : https = true) (failed : s.Failed (·.isSslAccept)) (idle : s.sslAccepts = [])
      (idle' : s.handshakes = [])

structure Listening (http https : Bool) (s : ServerImpl) : Prop where
  tcp : TcpListens http s
  ssl : SslListens https s
  handsOver : HandsOver s

section

variable {http https : Bool} {s t : ServerImpl} {op : AcceptOp} {ec : ErrorCode} {n : Nat}
variable {kind : AcceptOp → Bool} {id : ConnectionId}

theorem failed_snoc (completed : t.completed = s.completed ++ [(op, ec)]) :
    t.Failed kind ↔ s.Failed kind ∨ kind op = true ∧ ec ≠ .success := by
  unfold Failed
  rw [completed]
  constructor
  · rintro ⟨op', ec', member, isKind, failed⟩
    rcases List.mem_append.mp member with old | new
    · exact .inl ⟨op', ec', old, isKind, failed⟩
    · obtain ⟨rfl, rfl⟩ := Prod.mk.inj (List.mem_singleton.mp new)
      exact .inr ⟨isKind, failed⟩
  · rintro (⟨op', ec', member, isKind, failed⟩ | ⟨isKind, failed⟩)
    · exact ⟨op', ec', List.mem_append_left _ member, isKind, failed⟩
    · exact ⟨op, ec, List.mem_append_right _ (List.mem_singleton_self _), isKind, failed⟩

/-- A completion of another kind, or a success, is no failure of this kind. -/
theorem failed_snoc_of (completed : t.completed = s.completed ++ [(op, ec)])
    (harmless : kind op = true → ec = .success) : t.Failed kind ↔ s.Failed kind := by
  rw [failed_snoc completed, or_iff_left]
  rintro ⟨isKind, failed⟩
  exact failed (harmless isKind)

/-- What has been handed over stays so while operations complete. -/
theorem HandsOver.keep (handsOver : HandsOver s) (handed : t.handed = s.handed)
    (grows : ∀ p ∈ s.completed, p ∈ t.completed) : HandsOver t where
  once := handed ▸ handsOver.once
  succeeded := by
    intro conn member
    obtain ⟨id, isId, succeeded⟩ := handsOver.succeeded conn (handed ▸ member)
    refine ⟨id, isId, ?_⟩
    cases id with
    | tcp n => exact grows _ succeeded
    | ssl n => exact ⟨grows _ succeeded.1, grows _ succeeded.2⟩

/-- One more connection that has succeeded. -/
theorem HandsOver.push (handsOver : HandsOver s) (handed : t.handed = s.handed ++ [some id])
    (grows : ∀ p ∈ s.completed, p ∈ t.completed) (new : some id ∉ s.handed)
    (succeeded : t.Succeeded id) : HandsOver t := by
  have kept : HandsOver { t with handed := s.handed } := handsOver.keep rfl grows
  constructor
  · rw [handed, List.nodup_append]
    refine ⟨handsOver.once, List.pairwise_singleton _ _, ?_⟩
    rintro a old b isNew rfl
    exact new (List.mem_singleton.mp isNew ▸ old)
  · intro conn member
    rw [handed] at member
    rcases List.mem_append.mp member with old | isNew
    · exact kept.succeeded conn old
    · exact ⟨id, List.mem_singleton.mp isNew, succeeded⟩

/-- The TCP listener does not look at the other one. -/
theorem TcpListens.frame (listens : TcpListens http s)
    (isNew : t.newTcpConnection = s.newTcpConnection) (accepts : t.tcpAccepts = s.tcpAccepts)
    (made : t.tcpCreated = s.tcpCreated)
    (failed : t.Failed (·.isTcpAccept) ↔ s.Failed (·.isTcpAccept))
    (handed : ∀ m, some (.tcp m) ∈ t.handed → some (.tcp m) ∈ s.handed) : TcpListens http t := by
  cases listens with
  | off disabled idle sound => exact .off disabled (accepts.trans idle) (mt failed.mp sound)
  | @accepting n enabled sound isNew' accepts' made' fresh =>
      exact .accepting enabled (mt failed.mp sound) (isNew.trans isNew') (accepts.trans accepts')
        (made ▸ made') fun m member => fresh m (handed m member)
  | stopped enabled failed' idle =>
      exact .stopped enabled (failed.mpr failed') (accepts.trans idle)

/-- Nor does the TLS listener. -/
theorem SslListens.frame (listens : SslListens https s)
    (isNew : t.newSslConnection = s.newSslConnection) (accepts : t.sslAccepts = s.sslAccepts)
    (shakes : t.handshakes = s.handshakes) (made : t.sslCreated = s.sslCreated)
    (failed : t.Failed (·.isSslAccept) ↔ s.Failed (·.isSslAccept))
    (grows : ∀ p ∈ s.completed, p ∈ t.completed)
    (handed : ∀ m, some (.ssl m) ∈ t.handed → some (.ssl m) ∈ s.handed) : SslListens https t := by
  cases listens with
  | off disabled idle idle' sound =>
      exact .off disabled (accepts.trans idle) (shakes.trans idle') (mt failed.mp sound)
  | @accepting n enabled sound isNew' accepts' idle' made' fresh =>
      exact .accepting enabled (mt failed.mp sound) (isNew.trans isNew') (accepts.trans accepts')
        (shakes.trans idle') (made ▸ made') fun m member => fresh m (handed m member)
  | @handshaking n enabled sound isNew' idle shakes' accepted made' fresh =>
      exact .handshaking enabled (mt failed.mp sound) (isNew.trans isNew') (accepts.trans idle)
        (shakes.trans shakes') (grows _ accepted) (made ▸ made')
        fun m member => fresh m (handed m member)
  | stopped enabled failed' idle idle' =>
      exact .stopped enabled (failed.mpr failed') (accepts.trans idle) (shakes.trans idle')

/-! ## One completion -/

theorem mem_completed_of (completed : t.completed = s.completed ++ [(op, ec)]) :
    ∀ p ∈ s.completed, p ∈ t.completed := by
  intro p member
  rw [completed]
  exact List.mem_append_left _ member

theorem mem_completed_self (completed : t.completed = s.completed ++ [(op, ec)]) :
    (op, ec) ∈ t.completed := by
  rw [completed]
  exact List.mem_append_right _ (List.mem_singleton_self _)

/-- A connection that was handed over is an old one or the new one. -/
theorem mem_handed_snoc (handed : t.handed = s.handed ++ [some id]) {conn : ConnectionId}
    (member : some conn ∈ t.handed) : some conn ∈ s.handed ∨ conn = id := by
  rw [handed] at member
  rcases List.mem_append.mp member with old | isNew
  · exact .inl old
  · exact .inr (Option.some.inj (List.mem_singleton.mp isNew))

/-- A completion that hands nothing over, seen from the TCP listener. -/
theorem not_isTcp (handed : t.handed = s.handed ++ [some (.ssl n)]) :
    ∀ m, some (.tcp m) ∈ t.handed → some (.tcp m) ∈ s.handed := by
  intro m member
  rcases mem_handed_snoc handed member with old | same
  · exact old
  · cases same

theorem not_isSsl (handed : t.handed = s.handed ++ [some (.tcp n)]) :
    ∀ m, some (.ssl m) ∈ t.handed → some (.ssl m) ∈ s.handed := by
  intro m member
  rcases mem_handed_snoc handed member with old | same
  · exact old
  · cases same

/-- An accept of the TCP listener is outstanding only while it accepts. -/
theorem TcpListens.of_pending (listens : TcpListens http s) (pending : s.Pending (.tcpAccept n)) :
    http = true ∧ ¬ s.Failed (·.isTcpAccept) ∧ s.newTcpConnection = some n ∧
      s.tcpAccepts = [n] ∧ n < s.tcpCreated ∧ ∀ m, some (.tcp m) ∈ s.handed → m < n := by
  change n ∈ s.tcpAccepts at pending
  cases listens with
  | off _ idle _ => rw [idle] at pending; cases pending
  | stopped _ _ idle => rw [idle] at pending; cases pending
  | @accepting m enabled sound isNew accepts made fresh =>
      rw [accepts] at pending
      obtain rfl := List.mem_singleton.mp pending
      exact ⟨enabled, sound, isNew, accepts, made, fresh⟩

/-- An accept of the TLS listener is outstanding only while it accepts. -/
theorem SslListens.of_pending (listens : SslListens https s) (pending : s.Pending (.sslAccept n)) :
    https = true ∧ ¬ s.Failed (·.isSslAccept) ∧ s.newSslConnection = some n ∧
      s.sslAccepts = [n] ∧ s.handshakes = [] ∧ n < s.sslCreated ∧
      ∀ m, some (.ssl m) ∈ s.handed → m < n := by
  change n ∈ s.sslAccepts at pending
  cases listens with
  | off _ idle _ _ => rw [idle] at pending; cases pending
  | stopped _ _ idle _ => rw [idle] at pending; cases pending
  | handshaking _ _ _ idle _ _ _ _ => rw [idle] at pending; cases pending
  | @accepting m enabled sound isNew accepts idle' made fresh =>
      rw [accepts] at pending
      obtain rfl := List.mem_singleton.mp pending
      exact ⟨enabled, sound, isNew, accepts, idle', made, fresh⟩

/-- A handshake is outstanding only between an accept that succeeded and the
next one. -/
theorem SslListens.of_shaking (listens : SslListens https s) (pending : s.Pending (.handshake n)) :
    https = true ∧ ¬ s.Failed (·.isSslAccept) ∧ s.newSslConnection = some n ∧
      s.sslAccepts = [] ∧ s.handshakes = [n] ∧ (.sslAccept n, .success) ∈ s.completed ∧
      n < s.sslCreated ∧ ∀ m, some (.ssl m) ∈ s.handed → m < n := by
  change n ∈ s.handshakes at pending
  cases listens with
  | off _ _ idle' _ => rw [idle'] at pending; cases pending
  | stopped _ _ _ idle' => rw [idle'] at pending; cases pending
  | accepting _ _ _ _ idle' _ _ => rw [idle'] at pending; cases pending
  | @handshaking m enabled sound isNew idle shakes accepted made fresh =>
      rw [shakes] at pending
      obtain rfl := List.mem_singleton.mp pending
      exact ⟨enabled, sound, isNew, idle, shakes, accepted, made, fresh⟩

/-- A failed accept leaves at most a line of the log. -/
theorem complete_tcpAccept_of_ne (failure : ec ≠ .success) (s : ServerImpl) (n : Nat) :
    ∃ log, s.complete (.tcpAccept n) ec =
      { s with
        completed := s.completed ++ [(.tcpAccept n, ec)]
        tcpAccepts := s.tcpAccepts.erase n
        log } := by
  cases ec with
  | success => exact absurd rfl failure
  | operationAborted message => exact ⟨s.log, rfl⟩
  | other message => exact ⟨s.log ++ [message], rfl⟩

theorem complete_sslAccept_of_ne (failure : ec ≠ .success) (s : ServerImpl) (n : Nat) :
    ∃ log, s.complete (.sslAccept n) ec =
      { s with
        completed := s.completed ++ [(.sslAccept n, ec)]
        sslAccepts := s.sslAccepts.erase n
        log } := by
  cases ec with
  | success => exact absurd rfl failure
  | operationAborted message => exact ⟨s.log, rfl⟩
  | other message => exact ⟨s.log ++ [message], rfl⟩

/-- A failed handshake leaves a line of the log and the next accept. -/
theorem complete_handshake_of_ne (failure : ec ≠ .success) (s : ServerImpl) (n : Nat) :
    ∃ log, s.complete (.handshake n) ec =
      { s with
        completed := s.completed ++ [(.handshake n, ec)]
        handshakes := s.handshakes.erase n
        newSslConnection := some s.sslCreated
        sslCreated := s.sslCreated + 1
        sslAccepts := s.sslAccepts ++ [s.sslCreated]
        log } := by
  cases ec with
  | success => exact absurd rfl failure
  | operationAborted message => exact ⟨s.log ++ [message], rfl⟩
  | other message => exact ⟨s.log ++ [message], rfl⟩

/-- The connection of an accept that succeeded is handed over, and the accept for
the next one starts. -/
theorem Listening.tcpAccept_success (listening : Listening http https s)
    (pending : s.Pending (.tcpAccept n)) :
    Listening http https (s.complete (.tcpAccept n) .success) := by
  obtain ⟨enabled, sound, isNew, accepts, made, fresh⟩ := listening.tcp.of_pending pending
  have completed : (s.complete (.tcpAccept n) .success).completed =
      s.completed ++ [(.tcpAccept n, .success)] := rfl
  have handed : (s.complete (.tcpAccept n) .success).handed = s.handed ++ [some (.tcp n)] := by
    change s.handed ++ [s.newTcpConnection.map .tcp] = _
    rw [isNew]
    rfl
  have accepting : (s.complete (.tcpAccept n) .success).tcpAccepts = [s.tcpCreated] := by
    change s.tcpAccepts.erase n ++ [s.tcpCreated] = _
    rw [accepts, List.erase_cons_head, List.nil_append]
  have grows := mem_completed_of completed
  refine ⟨.accepting enabled ?_ rfl accepting (Nat.lt_succ_self _) ?_, ?_, ?_⟩
  · exact mt (failed_snoc_of completed fun _ => rfl).mp sound
  · intro k member
    rcases mem_handed_snoc handed member with old | same
    · exact (fresh k old).trans made
    · exact ConnectionId.tcp.inj same ▸ made
  · refine listening.ssl.frame rfl rfl rfl rfl (failed_snoc_of completed fun other => ?_) grows
      (not_isSsl handed)
    cases other
  · exact listening.handsOver.push handed grows (fun old => Nat.lt_irrefl n (fresh n old))
      (mem_completed_self completed)

/-- An accept that fails is the last one of its listener. -/
theorem Listening.tcpAccept_failure (listening : Listening http https s)
    (pending : s.Pending (.tcpAccept n)) (failure : ec ≠ .success) :
    Listening http https (s.complete (.tcpAccept n) ec) := by
  obtain ⟨enabled, -, -, accepts, -, -⟩ := listening.tcp.of_pending pending
  have erased : s.tcpAccepts.erase n = [] := by rw [accepts, List.erase_cons_head]
  obtain ⟨log, step⟩ := complete_tcpAccept_of_ne failure s n
  rw [step]
  refine ⟨.stopped enabled ?_ erased, ?_, ?_⟩
  · exact (failed_snoc rfl).mpr (.inr ⟨rfl, failure⟩)
  · refine listening.ssl.frame rfl rfl rfl rfl (failed_snoc_of rfl fun other => ?_)
      (mem_completed_of rfl) fun m member => member
    cases other
  · exact listening.handsOver.keep rfl (mem_completed_of rfl)

/-- A TLS accept that succeeds starts the handshake. -/
theorem Listening.sslAccept_success (listening : Listening http https s)
    (pending : s.Pending (.sslAccept n)) :
    Listening http https (s.complete (.sslAccept n) .success) := by
  obtain ⟨enabled, sound, isNew, accepts, idle, made, fresh⟩ := listening.ssl.of_pending pending
  have completed : (s.complete (.sslAccept n) .success).completed =
      s.completed ++ [(.sslAccept n, .success)] := rfl
  have erased : (s.complete (.sslAccept n) .success).sslAccepts = [] := by
    change s.sslAccepts.erase n = _
    rw [accepts, List.erase_cons_head]
  have shaking : (s.complete (.sslAccept n) .success).handshakes = [n] := by
    change s.handshakes ++ s.newSslConnection.toList = _
    rw [idle, isNew]
    rfl
  have grows := mem_completed_of completed
  refine ⟨?_, .handshaking enabled ?_ isNew erased shaking (mem_completed_self completed) made
    fresh, ?_⟩
  · refine listening.tcp.frame rfl rfl rfl (failed_snoc_of completed fun other => ?_)
      fun m member => member
    cases other
  · exact mt (failed_snoc_of completed fun _ => rfl).mp sound
  · exact listening.handsOver.keep rfl grows

/-- A TLS accept that fails is the last one of its listener. -/
theorem Listening.sslAccept_failure (listening : Listening http https s)
    (pending : s.Pending (.sslAccept n)) (failure : ec ≠ .success) :
    Listening http https (s.complete (.sslAccept n) ec) := by
  obtain ⟨enabled, -, -, accepts, idle, -, -⟩ := listening.ssl.of_pending pending
  have erased : s.sslAccepts.erase n = [] := by rw [accepts, List.erase_cons_head]
  obtain ⟨log, step⟩ := complete_sslAccept_of_ne failure s n
  rw [step]
  refine ⟨?_, .stopped enabled ?_ erased idle, ?_⟩
  · refine listening.tcp.frame rfl rfl rfl (failed_snoc_of rfl fun other => ?_)
      fun m member => member
    cases other
  · exact (failed_snoc rfl).mpr (.inr ⟨rfl, failure⟩)
  · exact listening.handsOver.keep rfl (mem_completed_of rfl)

/-- The accept that a handshake starts is for a connection that nobody has seen. -/
theorem SslListens.rearmed (listens : SslListens https s) (pending : s.Pending (.handshake n))
    (completed : t.completed = s.completed ++ [(.handshake n, ec)])
    (isNew : t.newSslConnection = some s.sslCreated)
    (accepts : t.sslAccepts = s.sslAccepts ++ [s.sslCreated])
    (shakes : t.handshakes = s.handshakes.erase n) (made : t.sslCreated = s.sslCreated + 1)
    (handed : ∀ m, some (.ssl m) ∈ t.handed → some (.ssl m) ∈ s.handed ∨ m = n) :
    SslListens https t := by
  obtain ⟨enabled, sound, -, idle, shaking, -, below, fresh⟩ := listens.of_shaking pending
  rw [idle, List.nil_append] at accepts
  rw [shaking, List.erase_cons_head] at shakes
  refine .accepting enabled ?_ isNew accepts shakes (made ▸ Nat.lt_succ_self _) ?_
  · refine mt (failed_snoc_of completed fun other => ?_).mp sound
    cases other
  · intro m member
    rcases handed m member with old | rfl
    · exact (fresh m old).trans below
    · exact below

/-- A handshake that succeeds hands the connection over and starts the next
accept. -/
theorem Listening.handshake_success (listening : Listening http https s)
    (pending : s.Pending (.handshake n)) :
    Listening http https (s.complete (.handshake n) .success) := by
  obtain ⟨-, -, isNew, -, -, accepted, -, fresh⟩ := listening.ssl.of_shaking pending
  have completed : (s.complete (.handshake n) .success).completed =
      s.completed ++ [(.handshake n, .success)] := rfl
  have handed : (s.complete (.handshake n) .success).handed = s.handed ++ [some (.ssl n)] := by
    change s.handed ++ [s.newSslConnection.map .ssl] = _
    rw [isNew]
    rfl
  have grows := mem_completed_of completed
  refine ⟨?_, ?_, ?_⟩
  · refine listening.tcp.frame rfl rfl rfl (failed_snoc_of completed fun other => ?_)
      (not_isTcp handed)
    cases other
  · refine listening.ssl.rearmed pending completed rfl rfl rfl rfl fun m member => ?_
    exact (mem_handed_snoc handed member).imp_right ConnectionId.ssl.inj
  · exact listening.handsOver.push handed grows (fun old => Nat.lt_irrefl n (fresh n old))
      ⟨grows _ accepted, mem_completed_self completed⟩

/-- A handshake that fails starts the next accept all the same. -/
theorem Listening.handshake_failure (listening : Listening http https s)
    (pending : s.Pending (.handshake n)) (failure : ec ≠ .success) :
    Listening http https (s.complete (.handshake n) ec) := by
  obtain ⟨log, step⟩ := complete_handshake_of_ne failure s n
  rw [step]
  refine ⟨?_, listening.ssl.rearmed pending rfl rfl rfl rfl rfl fun m member => .inl member, ?_⟩
  · refine listening.tcp.frame rfl rfl rfl (failed_snoc_of rfl fun other => ?_)
      fun m member => member
    cases other
  · exact listening.handsOver.keep rfl (mem_completed_of rfl)

/-- **One completion** keeps the invariant. -/
theorem Listening.complete (listening : Listening http https s) (pending : s.Pending op)
    (ec : ErrorCode) : Listening http https (s.complete op ec) := by
  by_cases success : ec = .success
  · subst success
    cases op with
    | tcpAccept n => exact listening.tcpAccept_success pending
    | sslAccept n => exact listening.sslAccept_success pending
    | handshake n => exact listening.handshake_success pending
  · cases op with
    | tcpAccept n => exact listening.tcpAccept_failure pending success
    | sslAccept n => exact listening.sslAccept_failure pending success
    | handshake n => exact listening.handshake_failure pending success

/-! ## Every run -/

theorem listening_start (http https : Bool) :
    Listening http https (construct http https).startAccept := by
  have completed : (construct http https).startAccept.completed = [] := by
    cases http <;> cases https <;> rfl
  have handed : (construct http https).startAccept.handed = [] := by
    cases http <;> cases https <;> rfl
  have sound (kind : AcceptOp → Bool) : ¬ (construct http https).startAccept.Failed kind := by
    rintro ⟨op, ec, member, -⟩
    rw [completed] at member
    cases member
  have fresh (conn : Option ConnectionId) : conn ∉ (construct http https).startAccept.handed := by
    rw [handed]
    exact List.not_mem_nil
  refine ⟨?_, ?_, ?_⟩
  · cases http with
    | false => exact .off rfl (by cases https <;> rfl) (sound _)
    | true =>
        have isNew : (construct true https).startAccept.newTcpConnection = some 0 := by
          cases https <;> rfl
        have made : (construct true https).startAccept.tcpCreated = 1 := by cases https <;> rfl
        exact .accepting rfl (sound _) isNew (by cases https <;> rfl) (made ▸ Nat.one_pos)
          fun m member => absurd member (fresh _)
  · cases https with
    | false => exact .off rfl (by cases http <;> rfl) (by cases http <;> rfl) (sound _)
    | true =>
        have isNew : (construct http true).startAccept.newSslConnection = some 0 := by
          cases http <;> rfl
        have made : (construct http true).startAccept.sslCreated = 1 := by cases http <;> rfl
        exact .accepting rfl (sound _) isNew (by cases http <;> rfl) (by cases http <;> rfl)
          (made ▸ Nat.one_pos) fun m member => absurd member (fresh _)
  · exact ⟨handed ▸ List.nodup_nil, fun conn member => absurd member (fresh conn)⟩

/-- Every state of a run is one the invariant describes. -/
theorem listening_of_reachable (reached : (listeners http https).Reachable s) :
    Listening http https s := by
  refine reached.invariant ?_ ?_
  · rintro s rfl
    exact listening_start http https
  · rintro s t listening ⟨op, ec, pending, rfl⟩
    exact listening.complete pending ec

theorem TcpListens.length_iff (listens : TcpListens http s) :
    (s.tcpAccepts.length = if http then 1 else 0) ↔ ¬ s.Failed (·.isTcpAccept) := by
  cases listens with
  | off disabled idle sound => exact iff_of_true (by rw [idle, disabled]; rfl) sound
  | accepting enabled sound _ accepts => exact iff_of_true (by rw [accepts, enabled]; rfl) sound
  | stopped enabled failed idle =>
      refine iff_of_false ?_ (not_not.mpr failed)
      rw [idle, enabled]
      exact Nat.zero_ne_one

theorem SslListens.length_iff (listens : SslListens https s) :
    (s.sslAccepts.length + s.handshakes.length = if https then 1 else 0) ↔
      ¬ s.Failed (·.isSslAccept) := by
  cases listens with
  | off disabled idle idle' sound =>
      exact iff_of_true (by rw [idle, idle', disabled]; rfl) sound
  | accepting enabled sound _ accepts idle' =>
      exact iff_of_true (by rw [accepts, idle', enabled]; rfl) sound
  | handshaking enabled sound _ idle shakes =>
      exact iff_of_true (by rw [idle, shakes, enabled]; rfl) sound
  | stopped enabled failed idle idle' =>
      refine iff_of_false ?_ (not_not.mpr failed)
      rw [idle, idle', enabled]
      exact Nat.zero_ne_one

/-- **Handing over.** In every run, whatever fails, a connection is handed over
once, and only when its accept and its handshake have succeeded. -/
theorem handed_of_reachable (reached : (listeners http https).Reachable s) : HandsOver s :=
  (listening_of_reachable reached).handsOver

/-- **The listeners keep accepting** as long as every accept has succeeded, and
no longer. -/
theorem keepsAccepting_iff (reached : (listeners http https).Reachable s) :
    KeepsAccepting http https s ↔ ∀ op ec, (op, ec) ∈ s.completed →
      op.isTcpAccept = true ∨ op.isSslAccept = true → ec = .success := by
  have listening := listening_of_reachable reached
  constructor
  · rintro ⟨tcp, ssl, -⟩ op ec member accept
    by_contra failure
    rcases accept with isTcp | isSsl
    · exact listening.tcp.length_iff.mp tcp ⟨op, ec, member, isTcp, failure⟩
    · exact listening.ssl.length_iff.mp ssl ⟨op, ec, member, isSsl, failure⟩
  · intro succeed
    refine ⟨listening.tcp.length_iff.mpr ?_, listening.ssl.length_iff.mpr ?_, listening.handsOver⟩
    · rintro ⟨op, ec, member, isTcp, failure⟩
      exact failure (succeed op ec member (.inl isTcp))
    · rintro ⟨op, ec, member, isSsl, failure⟩
      exact failure (succeed op ec member (.inr isSsl))

end

/-! ## Two runs -/

/-- A server of both ports after `startAccept`. -/
def started : ServerImpl := (construct true true).startAccept

/-- Both accepts succeed, and the handshake fails. -/
def shaken : ServerImpl :=
  ((started.complete (.tcpAccept 0) .success).complete (.sslAccept 0) .success).complete
    (.handshake 0) (.other (str "stream truncated"))

theorem shaken_reachable : (listeners true true).Reachable shaken := by
  have first : (listeners true true).Reachable started := .start rfl
  have second := first.next ⟨.tcpAccept 0, .success, List.mem_singleton_self 0, rfl⟩
  have third := second.next ⟨.sslAccept 0, .success, List.mem_singleton_self 0, rfl⟩
  exact third.next ⟨.handshake 0, _, List.mem_singleton_self 0, rfl⟩

theorem keepsAccepting_shaken : KeepsAccepting true true shaken := by
  refine (keepsAccepting_iff shaken_reachable).mpr ?_
  intro op ec member accept
  have listed : (op, ec) ∈ [(.tcpAccept 0, .success), (.sslAccept 0, .success),
    (.handshake 0, .other (str "stream truncated"))] := member
  simp only [List.mem_cons, Prod.mk.injEq, List.not_mem_nil, or_false] at listed
  rcases listed with ⟨rfl, rfl⟩ | ⟨rfl, rfl⟩ | ⟨rfl, rfl⟩
  · rfl
  · rfl
  · rcases accept with isTcp | isSsl
    · cases isTcp
    · cases isSsl

/-- The first accept of the TCP listener fails. -/
def refused : ServerImpl := started.complete (.tcpAccept 0) (.other (str "Too many open files"))

/-- One error that is not `operation_aborted`, and nothing listens at the port. -/
theorem refused_not_keepsAccepting : (listeners true true).Reachable refused ∧
    refused.completed = [(.tcpAccept 0, .other (str "Too many open files"))] ∧
    ¬ KeepsAccepting true true refused := by
  have first : (listeners true true).Reachable started := .start rfl
  refine ⟨first.next ⟨.tcpAccept 0, _, List.mem_singleton_self 0, rfl⟩, rfl, ?_⟩
  intro keeps
  exact Nat.zero_ne_one keeps.tcp

end ServerImpl

end Ahttpd

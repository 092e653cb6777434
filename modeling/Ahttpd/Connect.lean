import Ahttpd.Basis.Termination

/-!
# Connecting

`asyncConnect` resolves a host and tries the endpoints it gets in their order,
on a socket that it closes before each further try. A `SslConnection` shakes
hands with the first endpoint that accepts, and does not go on to another one
when that fails. `asyncConnect_first_endpoint`: whoever asks for the connection
is called exactly once, after no more completions than there are endpoints and
two, and gets a connection to the first endpoint that accepts or none.
-/

namespace Ahttpd

open Basis

/-- An endpoint of a host: where it is, whether it accepts a connection and
whether a handshake with it succeeds. -/
structure Endpoint (α : Type*) where
  address : α
  accepts : Bool
  shakes : Bool

/-- What `async_resolve` completes with. There is at least one endpoint unless
it fails. -/
inductive Resolution (α : Type*)
  | error
  | endpoints (first : Endpoint α) (endpointIterator : List (Endpoint α))

/-- What `nativeSocket` is asked for. -/
inductive SocketCall (α : Type*)
  | asyncConnect (address : α)
  | close

/-- The operation that is open. -/
inductive ConnectOp (α : Type*)
  | resolve
  | connect (endpoint : Endpoint α) (endpointIterator : List (Endpoint α))
  | handshake (endpoint : Endpoint α)
  | finished

/-- A connection between `asyncConnect` and the call of its handler. Each call
is recorded by whether it brings the connection or `nullptr`. -/
structure Connecting (α : Type*) where
  ssl : Bool
  op : ConnectOp α
  socket : List (SocketCall α)
  calls : List Bool

namespace Connecting

variable {α : Type*}

/-- `asyncConnect`. -/
def asyncConnect (ssl : Bool) : Connecting α := ⟨ssl, .resolve, [], []⟩

def handler (c : Connecting α) (conn : Bool) : Connecting α :=
  { c with op := .finished, calls := c.calls ++ [conn] }

/-- What `TcpConnection::asyncConnect` calls: the handler itself, or that of
`SslConnection::asyncConnect`. -/
def tcpHandler (c : Connecting α) : Option (Endpoint α) → Connecting α
  | some endpoint => if c.ssl then { c with op := .handshake endpoint } else c.handler true
  | none => c.handler false

def connectTo (c : Connecting α) (endpoint : Endpoint α)
    (endpointIterator : List (Endpoint α)) : Connecting α :=
  { c with op := .connect endpoint endpointIterator,
           socket := c.socket ++ [.asyncConnect endpoint.address] }

def close (c : Connecting α) : Connecting α := { c with socket := c.socket ++ [.close] }

def handleResolve (c : Connecting α) : Resolution α → Connecting α
  | .error => c.tcpHandler none
  | .endpoints first endpointIterator => c.connectTo first endpointIterator

/-- `handle_connect`. -/
def handleConnect (c : Connecting α) (endpoint : Endpoint α)
    (endpointIterator : List (Endpoint α)) : Connecting α :=
  if endpoint.accepts then c.tcpHandler (some endpoint)
  else
    match endpointIterator with
    | next :: endpointIterator => c.close.connectTo next endpointIterator
    | [] => c.tcpHandler none

/-- The completion of the operation that is open. -/
def complete (c : Connecting α) (resolution : Resolution α) : Option (Connecting α) :=
  match c.op with
  | .resolve => some (c.handleResolve resolution)
  | .connect endpoint endpointIterator => some (c.handleConnect endpoint endpointIterator)
  | .handshake endpoint => some (c.handler endpoint.shakes)
  | .finished => none

/-- The completions that can follow. -/
def budget (resolution : List (Endpoint α)) (c : Connecting α) : Nat :=
  match c.op with
  | .resolve => resolution.length + 2
  | .connect _ endpointIterator => endpointIterator.length + 2
  | .handshake _ => 1
  | .finished => 0

end Connecting

/-! ## What it is for -/

section

variable {α : Type*}

def Resolution.list : Resolution α → List (Endpoint α)
  | .error => []
  | .endpoints first endpointIterator => first :: endpointIterator

/-- Whether there is a connection: the first endpoint that accepts decides. -/
def connects (ssl : Bool) (endpoints : List (Endpoint α)) : Bool :=
  (endpoints.find? (·.accepts)).any fun endpoint => !ssl || endpoint.shakes

/-- The tries, up to the first endpoint that accepts. -/
def socketCalls : List (Endpoint α) → List (SocketCall α)
  | [] => []
  | endpoint :: endpoints =>
      .asyncConnect endpoint.address ::
        if endpoint.accepts || endpoints.isEmpty then [] else .close :: socketCalls endpoints

/-- What has been done for endpoints that have refused, when more of them
follow. -/
def retries (refused : List (Endpoint α)) : List (SocketCall α) :=
  refused.flatMap fun endpoint => [.asyncConnect endpoint.address, .close]

/-- All runs of an `asyncConnect`. -/
def connectSystem (ssl : Bool) (resolution : Resolution α) :
    TransitionSystem (Connecting α) where
  init c := c = .asyncConnect ssl
  step c c' := c.complete resolution = some c'

variable {ssl : Bool} {resolution : Resolution α} {endpoints refused untried : List (Endpoint α)}
  {endpoint : Endpoint α} {c c' : Connecting α}

theorem connects_refused (refuse : ∀ r ∈ refused, r.accepts = false) :
    connects ssl (refused ++ endpoints) = connects ssl endpoints := by
  have none : refused.find? (·.accepts) = none :=
    List.find?_eq_none.mpr fun r member => by simp [refuse r member]
  rw [connects, List.find?_append, none, Option.none_or, connects]

theorem connects_accepted (accepts : endpoint.accepts = true) :
    connects ssl (endpoint :: untried) = (!ssl || endpoint.shakes) := by
  rw [connects, List.find?_cons_of_pos accepts]
  rfl

theorem socketCalls_refused (refuse : ∀ r ∈ refused, r.accepts = false)
    (more : endpoints ≠ []) :
    socketCalls (refused ++ endpoints) = retries refused ++ socketCalls endpoints := by
  induction refused with
  | nil => rfl
  | cons r refused ih =>
      rcases List.forall_mem_cons.mp refuse with ⟨refuses, refuse⟩
      have goesOn : (refused ++ endpoints).isEmpty = false := by
        simp [more]
      rw [List.cons_append, socketCalls, refuses, goesOn, ih refuse]
      rfl

/-- The last try. -/
theorem socketCalls_last (refuse : ∀ r ∈ refused, r.accepts = false)
    (last : endpoint.accepts = true ∨ untried = []) :
    socketCalls (refused ++ endpoint :: untried) =
      retries refused ++ [.asyncConnect endpoint.address] := by
  have ends : (endpoint.accepts || untried.isEmpty) = true := by
    rw [Bool.or_eq_true, List.isEmpty_iff]
    exact last
  rw [socketCalls_refused refuse (List.cons_ne_nil _ _), socketCalls, if_pos ends]

/-- Where an `asyncConnect` stands. -/
inductive Stands (ssl : Bool) (endpoints : List (Endpoint α)) : Connecting α → Prop
  | resolving : Stands ssl endpoints (.asyncConnect ssl)
  | connecting {tried next later} : endpoints = tried ++ next :: later →
      (∀ r ∈ tried, r.accepts = false) →
      Stands ssl endpoints
        ⟨ssl, .connect next later, retries tried ++ [.asyncConnect next.address], []⟩
  | shaking {tried next later} : endpoints = tried ++ next :: later →
      (∀ r ∈ tried, r.accepts = false) → next.accepts = true → ssl = true →
      Stands ssl endpoints ⟨ssl, .handshake next, socketCalls endpoints, []⟩
  | finished {conn} : connects ssl endpoints = conn →
      Stands ssl endpoints ⟨ssl, .finished, socketCalls endpoints, [conn]⟩

/-- One completion. -/
theorem Stands.complete (stands : Stands ssl resolution.list c)
    (step : c.complete resolution = some c') : Stands ssl resolution.list c' := by
  cases stands with
  | resolving =>
      obtain rfl := Option.some.inj step
      cases resolution with
      | error => exact .finished rfl
      | endpoints first later =>
          have tried : (first :: later : List (Endpoint α)) = [] ++ first :: later := rfl
          exact .connecting tried nofun
  | @connecting tried next later split refuse =>
      obtain rfl := Option.some.inj step
      unfold Connecting.handleConnect
      cases accepts : next.accepts with
      | true =>
          have calls := socketCalls_last refuse (.inl accepts : _ ∨ later = [])
          rw [if_pos rfl, ← calls, ← split]
          cases isSsl : ssl with
          | true => exact .shaking split refuse accepts rfl
          | false =>
              have outcome : connects false resolution.list = true := by
                rw [split, connects_refused refuse, connects_accepted accepts]
                rfl
              exact .finished outcome
      | false =>
          rw [if_neg Bool.false_ne_true]
          cases later with
          | nil =>
              have outcome : connects ssl resolution.list = false := by
                rw [split, connects_refused refuse, connects,
                  List.find?_cons_of_neg (by simp [accepts])]
                rfl
              rw [← socketCalls_last refuse (.inr rfl), ← split]
              exact .finished outcome
          | cons second later =>
              have refuse' : ∀ r ∈ tried ++ [next], r.accepts = false :=
                List.forall_mem_append.mpr ⟨refuse, List.forall_mem_singleton.mpr accepts⟩
              have split' : resolution.list = (tried ++ [next]) ++ second :: later :=
                split.trans (List.append_cons ..)
              have goesOn : Stands ssl resolution.list _ := .connecting split' refuse'
              simpa [Connecting.connectTo, Connecting.close, retries] using goesOn
  | @shaking tried next later split refuse accepts isSsl =>
      obtain rfl := Option.some.inj step
      have outcome : connects ssl resolution.list = next.shakes := by
        rw [split, connects_refused refuse, connects_accepted accepts, isSsl]
        rfl
      exact .finished outcome
  | finished => cases step

/-- After a connection at most a handshake follows. -/
theorem Connecting.budget_tcpHandler (endpoints : List (Endpoint α)) (c : Connecting α)
    (conn : Option (Endpoint α)) : (c.tcpHandler conn).budget endpoints ≤ 1 := by
  unfold Connecting.tcpHandler
  cases conn with
  | none => exact Nat.zero_le _
  | some endpoint =>
      cases c.ssl with
      | true => exact Nat.le_refl _
      | false => exact Nat.zero_le _

theorem budget_lt_of_complete (step : c.complete resolution = some c') :
    c'.budget resolution.list < c.budget resolution.list := by
  have ends (conn : Option (Endpoint α)) := c.budget_tcpHandler resolution.list conn
  rcases c with ⟨isSsl, op, socket, calls⟩
  cases op with
  | resolve =>
      obtain rfl := Option.some.inj step
      cases resolution with
      | error => exact Nat.lt_of_le_of_lt (ends none) Nat.one_lt_two
      | endpoints first later => exact Nat.lt_succ_self _
  | connect endpoint later =>
      obtain rfl := Option.some.inj step
      have enough : 1 < later.length + 2 := Nat.succ_lt_succ (Nat.succ_pos _)
      unfold Connecting.handleConnect
      split
      · exact Nat.lt_of_le_of_lt (ends (some endpoint)) enough
      · cases later with
        | nil => exact Nat.lt_of_le_of_lt (ends none) enough
        | cons next later => exact Nat.lt_succ_self _
  | handshake endpoint =>
      obtain rfl := Option.some.inj step
      exact Nat.zero_lt_one
  | finished => cases step

theorem connect_falls : (connectSystem ssl resolution).Falls
    (Connecting.budget resolution.list) :=
  fun _ _ step => budget_lt_of_complete step

theorem stands_of_reachable (reached : (connectSystem ssl resolution).Reachable c) :
    Stands ssl resolution.list c := by
  refine reached.invariant (fun c initial => ?_) fun c c' stands step => stands.complete step
  have isStart : c = .asyncConnect ssl := initial
  exact isStart ▸ .resolving

/-- The handler has been called where no operation is open, and only there. -/
theorem Stands.finished_iff (stands : Stands ssl endpoints c) :
    c.op = .finished ↔ c.calls = [connects ssl endpoints] ∧ c.socket = socketCalls endpoints := by
  cases stands with
  | resolving => exact ⟨nofun, nofun⟩
  | connecting => exact ⟨nofun, nofun⟩
  | shaking => exact ⟨nofun, nofun⟩
  | finished outcome => exact ⟨fun _ => ⟨congrArg ([·]) outcome.symm, rfl⟩, fun _ => rfl⟩

theorem Stands.calls_isPrefix (stands : Stands ssl endpoints c) :
    c.calls <+: [connects ssl endpoints] := by
  cases stands with
  | resolving => exact List.nil_prefix
  | connecting => exact List.nil_prefix
  | shaking => exact List.nil_prefix
  | finished outcome => exact outcome ▸ List.prefix_rfl

theorem Stands.socket_isPrefix (stands : Stands ssl endpoints c) :
    c.socket <+: socketCalls endpoints := by
  cases stands with
  | resolving => exact List.nil_prefix
  | @connecting tried next later split refuse =>
      rw [split, socketCalls_refused refuse (List.cons_ne_nil _ _), socketCalls]
      exact (List.prefix_append_right_inj _).mpr (List.prefix_append [_] _)
  | shaking => exact List.prefix_rfl
  | finished => exact List.prefix_rfl

theorem complete_eq_none_iff : c.complete resolution = none ↔ c.op = .finished := by
  rcases c with ⟨isSsl, op, socket, calls⟩
  cases op with
  | finished => exact ⟨fun _ => rfl, fun _ => rfl⟩
  | resolve | connect | handshake => exact ⟨nofun, nofun⟩

/-- **The first endpoint that accepts** decides, in every run. -/
theorem asyncConnect_first_endpoint (reached : (connectSystem ssl resolution).Reachable c) :
    c.socket <+: socketCalls resolution.list ∧ c.calls <+: [connects ssl resolution.list] ∧
    (∀ k c', (connectSystem ssl resolution).Run (.asyncConnect ssl) k c' →
      k ≤ resolution.list.length + 2) ∧
    ((connectSystem ssl resolution).Stuck c ↔
      c.calls = [connects ssl resolution.list] ∧ c.socket = socketCalls resolution.list) := by
  have stands := stands_of_reachable reached
  refine ⟨stands.socket_isPrefix, stands.calls_isPrefix, ?_, ?_⟩
  · intro k c' run
    have spent := run.length_le connect_falls
    exact Nat.le_trans (Nat.le_add_right k _) spent
  · have stuck : (connectSystem ssl resolution).Stuck c ↔ c.complete resolution = none :=
      Option.eq_none_iff_forall_ne_some.symm
    rw [stuck, complete_eq_none_iff, stands.finished_iff]

end

/-! ## Two endpoints -/

/-- The first endpoint refuses, the second one accepts but shakes no hands, and
the third one would do both. -/
def threeEndpoints : Resolution Nat :=
  .endpoints ⟨1, false, false⟩ [⟨2, true, false⟩, ⟨3, true, true⟩]

/-- A failed handshake is the end, though another endpoint would do. -/
theorem asyncConnect_first_endpoint_of_three : ∃ c, (connectSystem true threeEndpoints).Stuck c ∧
    c.calls = [false] ∧ c.socket = [.asyncConnect 1, .close, .asyncConnect 2] := by
  have start := TransitionSystem.Reachable.start (T := connectSystem true threeEndpoints) rfl
  have resolved := start.next rfl
  have refused := resolved.next rfl
  have accepted := refused.next rfl
  have shaken := accepted.next rfl
  have ends := (asyncConnect_first_endpoint shaken).2.2.2.mpr ⟨rfl, rfl⟩
  exact ⟨_, ends, rfl, rfl⟩

end Ahttpd

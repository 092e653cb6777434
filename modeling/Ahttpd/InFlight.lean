import Ahttpd.Basis.Shared
import Ahttpd.Connect
import Ahttpd.Session
import Mathlib.Data.Fintype.BigOperators

/-!
# Requests in flight

A `Client` may have any number of requests on the way. Each of them connects,
calls `req_handler`, waits for its response and calls `res_handler`; the
completions of all of them come in any order. What they share is the jar, which
they use under `cookie_mutex_`. The test of `enable_cookie_` in front of the
mutex, and `enableCookie`, `disableCookie` and `clearCookie`, take no lock: here
users call these three between completions, never while one is running.

`requests_in_flight`: in every interleaving the jar is that of a run of whole
calls, so that all that holds of these holds of it, and what a request does and
calls is what `Client::request` would do alone, with the jar of the moment in
which it gets its connection. Left alone, the requests come to an end.
-/

namespace Ahttpd

open Basis

/-- A call of `Client::request`: its arguments, and what it meets. -/
structure Requested (α : Type*) where
  method : Bytes
  url : Bytes
  reqHandler : Request → List MessageOp
  resolve : Bytes → Bytes → Resolution α
  net : Net

/-- Whether the connection is a `SslConnection`. -/
def Target.ssl (target : Target) : Bool := target.scheme == str "https"

def Requested.resolution {α : Type*} (r : Requested α) (target : Target) : Resolution α :=
  r.resolve target.host target.port

/-- Whether the request gets a connection. -/
def Requested.connected {α : Type*} (r : Requested α) : Bool :=
  (splitUrl r.url).any fun target => connects target.ssl (r.resolution target).list

def Requested.around {α : Type*} (r : Requested α) (zone now later : Int)
    (isdst : Nat → Nat → Int) : Surroundings :=
  ⟨r.connected, r.reqHandler, r.net, zone, now, later, isdst⟩

/-- What it sends when it gets its connection. -/
def Requested.sending {α : Type*} (r : Requested α) (client : Client) (target : Target)
    (now : Int) : Sending :=
  client.sending r.method target (r.around 0 now 0 fun _ _ => 0)

/-- What a request waits for. -/
inductive RequestPhase (α : Type*)
  | called
  | connecting (target : Target) (connection : Connecting α)
  | receiving (target : Target)
  | finished

/-- A request, the calls of its handlers and what it has written. -/
structure RequestState (α : Type*) where
  phase : RequestPhase α
  calls : List ClientCall
  sent : List Bytes

/-- What `parseResponse` makes the client store. -/
def Requested.stored {α : Type*} (r : Requested α) (target : Target) (zone later : Int)
    (isdst : Nat → Nat → Int) : List ClientEvent :=
  (parseResponse r.net).calls.filterMap fun call =>
    call.map fun res => .response (res.parseCookie zone later isdst) target.host

/-- The call of a request or the completion of its operation, with what it does
to the jar. No user calls `disableCookie` or its like while it runs, so the test
of `enable_cookie_` says the same as it would under the mutex. -/
inductive RequestMove {α : Type*} (r : Requested α) (client : Client) :
    RequestState α → List ClientEvent → RequestState α → Prop
  /-- The URL is none. -/
  | misread {calls sent} : splitUrl r.url = none →
      RequestMove r client ⟨.called, calls, sent⟩ []
        ⟨.finished, calls ++ [.resHandler none], sent⟩
  | asyncConnect {target calls sent} : splitUrl r.url = some target →
      RequestMove r client ⟨.called, calls, sent⟩ []
        ⟨.connecting target (.asyncConnect target.ssl), calls, sent⟩
  | connect {target c c' calls sent} : c.complete (r.resolution target) = some c' →
      c'.calls = [] →
      RequestMove r client ⟨.connecting target c, calls, sent⟩ []
        ⟨.connecting target c', calls, sent⟩
  /-- The handler of `asyncConnect` gets `nullptr`. -/
  | failed {target c c' calls sent} : c.complete (r.resolution target) = some c' →
      c'.calls = [false] →
      RequestMove r client ⟨.connecting target c, calls, sent⟩ []
        ⟨.finished, calls ++ [.reqHandler none, .resHandler none], sent⟩
  /-- It gets the connection. -/
  | connected {target c c' calls sent} (now : Int) :
      c.complete (r.resolution target) = some c' → c'.calls = [true] →
      RequestMove r client ⟨.connecting target c, calls, sent⟩
        [.request (Client.startRequest r.method target) target.scheme target.host now]
        ⟨.receiving target,
          calls ++ [.reqHandler (some (r.sending client target now).req)],
          sent ++ (Message.request (r.sending client target now).req).sent
            (r.sending client target now).ops⟩
  | response {target calls sent} (zone later : Int) (isdst : Nat → Nat → Int) :
      (parseResponse r.net).calls ≠ [] →
      RequestMove r client ⟨.receiving target, calls, sent⟩ (r.stored target zone later isdst)
        ⟨.finished, calls ++ (parseResponse r.net).calls.map .resHandler, sent⟩

/-- What users do to the jar themselves, between completions. -/
def ClientEvent.ByUser : ClientEvent → Prop
  | .enableCookie | .disableCookie | .clearCookie => True
  | .request .. | .response .. => False

/-- The requests of a new client. Between their completions users may turn the
cookies on and off or clear them; calls of these unlocked members while a
completion is running are left out. -/
def clientRequests {ι α : Type*} (requests : ι → Requested α) :
    Shared ι Client ClientEvent (RequestState α) where
  store := {}
  apply := Client.step
  task _ := ⟨.called, [], []⟩
  move i client := RequestMove (requests i) client
  outside := ClientEvent.ByUser

/-- The moves that a request can still make. -/
def Requested.budget {α : Type*} (r : Requested α) (l : RequestState α) : Nat :=
  match l.phase with
  | .called => (splitUrl r.url).elim 1 fun target => (r.resolution target).list.length + 5
  | .connecting target connection => connection.budget (r.resolution target).list + 2
  | .receiving _ => 1
  | .finished => 0

/-- How far a request has come, after these operations on the jar with these ones
of its own among them. -/
inductive RequestProgress {α : Type*} (r : Requested α) :
    List ClientEvent → List ClientEvent → RequestState α → Prop
  | called {ops} : RequestProgress r ops [] ⟨.called, [], []⟩
  | connecting {ops target connection} : splitUrl r.url = some target →
      (connectSystem target.ssl (r.resolution target)).Reachable connection →
      connection.calls = [] → RequestProgress r ops [] ⟨.connecting target connection, [], []⟩
  | receiving {ops target before} (now : Int) : splitUrl r.url = some target →
      r.connected = true → before <+: ops →
      RequestProgress r ops
        [.request (Client.startRequest r.method target) target.scheme target.host now]
        ⟨.receiving target, [.reqHandler (some (r.sending (Client.run before) target now).req)],
          (Message.request (r.sending (Client.run before) target now).req).sent
            (r.sending (Client.run before) target now).ops⟩
  | finished {ops before} (zone now later : Int) (isdst : Nat → Nat → Int) : before <+: ops →
      RequestProgress r ops (Client.eventsOf r.method r.url (r.around zone now later isdst))
        ⟨.finished,
          ((Client.run before).request r.method r.url (r.around zone now later isdst)).calls,
          ((Client.run before).request r.method r.url (r.around zone now later isdst)).sent⟩

section

variable {α : Type*} {r : Requested α} {l l' : RequestState α} {ops own more : List ClientEvent}

/-- Operations of others leave the request where it is. -/
theorem RequestProgress.weaken (progress : RequestProgress r ops own l)
    (more : List ClientEvent) : RequestProgress r (ops ++ more) own l := by
  have later {before : List ClientEvent} (earlier : before <+: ops) : before <+: ops ++ more :=
    earlier.trans (List.prefix_append _ _)
  cases progress with
  | called => exact .called
  | connecting understood reached silent => exact .connecting understood reached silent
  | receiving now understood connected earlier =>
      exact .receiving now understood connected (later earlier)
  | finished zone now time isdst earlier => exact .finished zone now time isdst (later earlier)

theorem connected_of_splitUrl {target : Target} (understood : splitUrl r.url = some target) :
    r.connected = connects target.ssl (r.resolution target).list := by
  rw [Requested.connected, understood]
  rfl

/-- A connection that has called the handler has called it with the outcome. -/
theorem connected_of_calls {target : Target} {c c' : Connecting α} {conn : Bool}
    (understood : splitUrl r.url = some target)
    (reached : (connectSystem target.ssl (r.resolution target)).Reachable c)
    (step : c.complete (r.resolution target) = some c') (called : c'.calls = [conn]) :
    r.connected = conn := by
  have isCall := (stands_of_reachable (reached.next step)).calls_isPrefix
  rw [called, ← connected_of_splitUrl understood] at isCall
  have same := (List.cons_prefix_cons.mp isCall).1
  exact same.symm

/-- A request of an URL that is none. -/
theorem progress_of_misread (none : splitUrl r.url = none) :
    RequestProgress r ops [] ⟨.finished, [.resHandler .none], []⟩ := by
  have progress : RequestProgress r ops _ _ := .finished 0 0 0 (fun _ _ => 0) List.nil_prefix
  have noEvents : Client.eventsOf r.method r.url (r.around 0 0 0 fun _ _ => 0) = [] := by
    rw [Client.eventsOf, none]
  rw [noEvents, Client.request, none] at progress
  exact progress

/-- A request that gets no connection. -/
theorem progress_of_failed {target : Target} (understood : splitUrl r.url = some target)
    (failed : r.connected = false) :
    RequestProgress r ops [] ⟨.finished, [.reqHandler none, .resHandler none], []⟩ := by
  have progress : RequestProgress r ops _ _ := .finished 0 0 0 (fun _ _ => 0) List.nil_prefix
  have failed' : (r.around 0 0 0 fun _ _ => 0).connected = false := failed
  have noEvents : Client.eventsOf r.method r.url (r.around 0 0 0 fun _ _ => 0) = [] := by
    rw [Client.eventsOf, understood]
    simp only [failed', Bool.not_false, if_true]
  rw [noEvents, Client.request, understood] at progress
  simp only [failed', Bool.not_false, if_true] at progress
  exact progress

/-- A request whose response comes. -/
theorem progress_of_response {target : Target} {before : List ClientEvent} {now : Int}
    (understood : splitUrl r.url = some target) (connected : r.connected = true)
    (earlier : before <+: ops) (zone later : Int) (isdst : Nat → Nat → Int) :
    RequestProgress r ops
      (.request (Client.startRequest r.method target) target.scheme target.host now ::
        r.stored target zone later isdst)
      ⟨.finished, .reqHandler (some (r.sending (Client.run before) target now).req) ::
          (parseResponse r.net).calls.map .resHandler,
        (Message.request (r.sending (Client.run before) target now).req).sent
          (r.sending (Client.run before) target now).ops⟩ := by
  have progress : RequestProgress r ops _ _ := .finished zone now later isdst earlier
  have connected' : (r.around zone now later isdst).connected = true := connected
  have events : Client.eventsOf r.method r.url (r.around zone now later isdst) =
      .request (Client.startRequest r.method target) target.scheme target.host now ::
        r.stored target zone later isdst := by
    rw [Client.eventsOf, understood]
    simp only [connected', Bool.not_true, Bool.false_eq_true, if_false]
    rfl
  rw [events, Client.request, understood] at progress
  simp only [connected', Bool.not_true, Bool.false_eq_true, if_false] at progress
  exact progress

/-- A move of the request takes it on. -/
theorem RequestProgress.move (progress : RequestProgress r ops own l)
    (move : RequestMove r (Client.run ops) l more l') :
    RequestProgress r (ops ++ more) (own ++ more) l' := by
  cases progress with
  | called =>
      cases move with
      | misread none => exact progress_of_misread none
      | asyncConnect understood => exact .connecting understood (.start rfl) rfl
  | connecting understood reached silent =>
      cases move with
      | connect step goesOn => exact .connecting understood (reached.next step) goesOn
      | failed step calls =>
          exact progress_of_failed understood (connected_of_calls understood reached step calls)
      | connected now step calls =>
          exact .receiving now understood (connected_of_calls understood reached step calls)
            (List.prefix_append _ _)
  | receiving now understood connected earlier =>
      cases move with
      | response zone later isdst calls =>
          exact progress_of_response understood connected
            (earlier.trans (List.prefix_append _ _)) zone later isdst
  | finished zone now later isdst earlier => cases move

/-- Every move lowers the budget. -/
theorem RequestMove.budget_lt {client : Client} (move : RequestMove r client l more l') :
    r.budget l' < r.budget l := by
  cases move with
  | misread none =>
      simp only [Requested.budget, none, Option.elim_none]
      exact Nat.zero_lt_one
  | asyncConnect understood =>
      simp only [Requested.budget, understood, Option.elim_some]
      exact Nat.lt_succ_self _
  | @connect target c c' calls sent step goesOn =>
      exact Nat.add_lt_add_right (budget_lt_of_complete step) 2
  | failed => exact Nat.succ_pos _
  | connected => exact Nat.succ_lt_succ (Nat.succ_pos _)
  | response => exact Nat.zero_lt_one

/-- A request that cannot move has finished or waits for its response. -/
theorem RequestProgress.of_stuck {client : Client} (progress : RequestProgress r ops own l)
    (stuck : ∀ more l', ¬RequestMove r client l more l') :
    l.phase = .finished ∨
      ∃ target, l.phase = .receiving target ∧ (parseResponse r.net).calls = [] := by
  cases progress with
  | called =>
      cases url : splitUrl r.url with
      | none => exact absurd (.misread url) (stuck _ _)
      | some target => exact absurd (.asyncConnect url) (stuck _ _)
  | @connecting target c understood reached silent =>
      exfalso
      cases step : c.complete (r.resolution target) with
      | none =>
          have isFinished := (stands_of_reachable reached).finished_iff.mp
            (complete_eq_none_iff.mp step)
          rw [silent] at isFinished
          cases isFinished.1
      | some c' =>
          have isCall := (stands_of_reachable (reached.next step)).calls_isPrefix
          rcases List.prefix_cons_iff.mp isCall with none | ⟨more, called, nothing⟩
          · exact stuck _ _ (.connect step none)
          · rw [List.prefix_nil.mp nothing] at called
            cases outcome : connects target.ssl (r.resolution target).list with
            | false => exact stuck _ _ (.failed step (outcome ▸ called))
            | true => exact stuck _ _ (.connected 0 step (outcome ▸ called))
  | @receiving target before now understood connected earlier =>
      by_cases none : (parseResponse r.net).calls = []
      · exact .inr ⟨target, rfl, none⟩
      · exact absurd (.response 0 0 (fun _ _ => 0) none) (stuck _ _)
  | finished => exact .inl rfl

/-- A finished request has done what it does alone. -/
theorem RequestProgress.of_finished (progress : RequestProgress r ops own l)
    (isFinished : l.phase = .finished) : ∃ before zone now later isdst, before <+: ops ∧
      own = Client.eventsOf r.method r.url (r.around zone now later isdst) ∧
      l.calls =
        ((Client.run before).request r.method r.url (r.around zone now later isdst)).calls ∧
      l.sent =
        ((Client.run before).request r.method r.url (r.around zone now later isdst)).sent := by
  cases progress with
  | called => cases isFinished
  | connecting => cases isFinished
  | receiving => cases isFinished
  | @finished before zone now later isdst earlier =>
      exact ⟨before, zone, now, later, isdst, earlier, rfl, rfl, rfl⟩

/-- No request calls `res_handler` before it has finished. -/
theorem RequestProgress.of_unfinished (progress : RequestProgress r ops own l)
    (unfinished : l.phase ≠ .finished) (res : Option Response) : .resHandler res ∉ l.calls := by
  intro called
  cases progress with
  | called => cases called
  | connecting => cases called
  | receiving => cases List.mem_singleton.mp called
  | finished => exact unfinished rfl

/-- What a request has put into the jar is from a response that its user has been
given. -/
theorem RequestProgress.of_response {cookies : List ResponseCookie} {host : Bytes}
    (progress : RequestProgress r ops own l) (stored : .response cookies host ∈ own) :
    ∃ target res zone later isdst, splitUrl r.url = some target ∧ host = target.host ∧
      .resHandler (some res) ∈ l.calls ∧ cookies = res.parseCookie zone later isdst := by
  cases progress with
  | called => cases stored
  | connecting => cases stored
  | receiving => cases List.mem_singleton.mp stored
  | @finished before zone now later isdst earlier =>
      unfold Client.eventsOf at stored
      cases understood : splitUrl r.url with
      | none =>
          rw [understood] at stored
          cases stored
      | some target =>
          rw [understood] at stored
          dsimp only at stored
          split at stored
          · cases stored
          · rename_i connected
            rcases List.mem_cons.mp stored with isRequest | isStored
            · cases isRequest
            · obtain ⟨call, called, isEvent⟩ := List.mem_filterMap.mp isStored
              obtain ⟨res, rfl, isResponse⟩ := Option.map_eq_some_iff.mp isEvent
              cases isResponse
              refine ⟨target, res, zone, later, isdst, rfl, rfl, ?_, rfl⟩
              rw [Client.request, understood]
              simp only [connected]
              exact List.mem_cons_of_mem _ (List.mem_map_of_mem called)

end

section

open Shared SharedLog

variable {ι α : Type*} [DecidableEq ι] {requests : ι → Requested α}
  {s : SharedState ι Client ClientEvent (RequestState α)}

theorem progress_of_reachable (reached : (clientRequests requests).system.Reachable s) (i : ι) :
    RequestProgress (requests i) (ops s.log) (opsOf i s.log) (s.task i) := by
  refine task_invariant (I := fun i => RequestProgress (requests i)) ?_ ?_ ?_ reached i
  · exact fun i => .called
  · exact fun i ops own l more l' progress move => progress.move move
  · exact fun i ops own l more progress => progress.weaken more

/-- A cookie of the jar has come with a response to one of the requests. -/
theorem cookie_of_reachable (reached : (clientRequests requests).system.Reachable s)
    {c : ResponseCookie} (member : c ∈ s.store.cookieJar) :
    ∃ i target res zone later isdst, splitUrl (requests i).url = some target ∧
      .resHandler (some res) ∈ (s.task i).calls ∧
      ∃ r ∈ res.parseCookie zone later isdst, c = r.withDefaults target.host := by
  have isRun : s.store = Client.run (ops s.log) := store_of_reachable reached
  rw [isRun] at member
  obtain ⟨host, r, ⟨before, cookies, earlier, -, carried⟩, same⟩ :=
    Client.storedFrom_of_mem_run member
  have stored : .response cookies host ∈ ops s.log :=
    earlier.subset (List.mem_append_right _ (List.mem_singleton_self _))
  obtain ⟨⟨who, event⟩, entry, isEvent⟩ := List.mem_map.mp stored
  obtain rfl : event = .response cookies host := isEvent
  cases who with
  | none => exact (outside_of_reachable reached entry).elim
  | some i =>
      obtain ⟨target, res, zone, later, isdst, understood, isHost, called, isCookies⟩ :=
        (progress_of_reachable reached i).of_response (mem_opsOf.mpr entry)
      exact ⟨i, target, res, zone, later, isdst, understood, called, r, isCookies ▸ carried,
        isHost ▸ same⟩

/-- **Requests in flight.** -/
theorem requests_in_flight [Fintype ι] (reached : (clientRequests requests).system.Reachable s) :
    s.store = Client.run (ops s.log) ∧
    (∀ i, (s.task i).phase = .finished → ∃ before zone now later isdst, before <+: ops s.log ∧
      opsOf i s.log = Client.eventsOf (requests i).method (requests i).url
        ((requests i).around zone now later isdst) ∧
      (s.task i).calls = ((Client.run before).request (requests i).method (requests i).url
        ((requests i).around zone now later isdst)).calls ∧
      (s.task i).sent = ((Client.run before).request (requests i).method (requests i).url
        ((requests i).around zone now later isdst)).sent) ∧
    (∀ i res, (s.task i).phase ≠ .finished → .resHandler res ∉ (s.task i).calls) ∧
    (∀ c ∈ s.store.cookieJar, ∃ i target res zone later isdst,
      splitUrl (requests i).url = some target ∧ .resHandler (some res) ∈ (s.task i).calls ∧
      ∃ r ∈ res.parseCookie zone later isdst, c = r.withDefaults target.host) ∧
    (∀ k t, (clientRequests requests).alone.system.Run s k t →
      k ≤ ∑ i, (requests i).budget (s.task i)) ∧
    (∃ k t, (clientRequests requests).alone.system.Run s k t ∧
      (clientRequests requests).alone.system.Stuck t) ∧
    ∀ k t, (clientRequests requests).alone.system.Run s k t →
      (clientRequests requests).alone.system.Stuck t → ∀ i, (t.task i).phase = .finished ∨
        ∃ target, (t.task i).phase = .receiving target ∧
          (parseResponse (requests i).net).calls = [] := by
  have falls := alone_falls (T := clientRequests requests)
    (fun i _ l more l' (move : RequestMove (requests i) _ l more l') => move.budget_lt)
  refine ⟨store_of_reachable reached,
    fun i isFinished => (progress_of_reachable reached i).of_finished isFinished,
    fun i res unfinished => (progress_of_reachable reached i).of_unfinished unfinished res,
    fun c member => cookie_of_reachable reached member, fun k t run => ?_,
    TransitionSystem.exists_stuck falls s, fun k t run stuck i => ?_⟩
  · have spent := run.length_le falls
    exact Nat.le_trans (Nat.le_add_right k _) spent
  · exact (progress_of_reachable (reachable_of_run reached run) i).of_stuck
      (alone_stuck_iff.mp stuck i)

end

/-! ## Two requests -/

/-- One host has three endpoints, of which the second one accepts, and the other
one is not known. -/
def knownOrNot (known : Bool) : Requested Nat where
  method := str "GET"
  url := str "http://h/a"
  reqHandler _ := []
  resolve _ _ := if known then threeEndpoints else .error
  net := silent

theorem parseResponse_silent : (parseResponse silent).calls = [none] := rfl

/-- The first request is still trying when the second one has failed. -/
theorem exists_inFlight : ∃ s, (clientRequests knownOrNot).system.Reachable s ∧
    s.task true = ⟨.connecting pageTarget ((Connecting.asyncConnect pageTarget.ssl).handleResolve
      threeEndpoints), [], []⟩ ∧
    s.task false = ⟨.finished, [.reqHandler none, .resHandler none], []⟩ := by
  have called (known : Bool) : splitUrl (knownOrNot known).url = some pageTarget :=
    splitUrl_pageTarget
  have start := TransitionSystem.Reachable.start (T := (clientRequests knownOrNot).system) rfl
  have first := start.next (.move true (.asyncConnect (called true)))
  have second := first.next (.move false (.asyncConnect (called false)))
  have resolved := second.next (.move true (.connect rfl rfl))
  have failed := resolved.next (.move false (.failed rfl rfl))
  exact ⟨_, failed, rfl, rfl⟩

/-- Both of them come to an end. -/
theorem requests_in_flight_of_two : ∃ s, s.store = Client.run (SharedLog.ops s.log) ∧
    (s.task false).calls = [.reqHandler none, .resHandler none] ∧
    ∃ k t, (clientRequests knownOrNot).alone.system.Run s k t ∧ k ≤ 6 ∧
      ∀ i, (t.task i).phase = .finished := by
  obtain ⟨s, reached, isTrying, hasFailed⟩ := exists_inFlight
  obtain ⟨isRun, -, -, -, bounded, ⟨k, t, run, stuck⟩, ends⟩ := requests_in_flight reached
  refine ⟨s, isRun, by rw [hasFailed], k, t, run, ?_, fun i => ?_⟩
  · have steps := bounded k t run
    rw [Fintype.sum_bool, isTrying, hasFailed] at steps
    exact steps
  · rcases ends k t run stuck i with done | ⟨target, -, none⟩
    · exact done
    · have called : (parseResponse (knownOrNot i).net).calls = [.none] := parseResponse_silent
      rw [called] at none
      cases none

end Ahttpd

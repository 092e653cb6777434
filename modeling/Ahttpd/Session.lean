import Ahttpd.Client
import Ahttpd.ClientRequest

/-!
# Cookies of a session

What the jar is for: a cookie that a server sets in a response comes back with
the later requests of the client to which it applies, and the server finds it
under its key (`session_cookie_comes_back`). Between the two it is written to a
Set-Cookie header, parsed, stored, selected, written to a Cookie header and
parsed again.
-/

namespace Ahttpd

open Basis

/-- `Request::getCookieValue`. -/
def Request.getCookieValue (req : Request) (key : Bytes) : Option Bytes :=
  (req.cookieJar.find? fun rc => rc.key == key).map (·.val)

/-! ## Requests of a client as a run of its jar -/

namespace Client

/-- What a request does to the jar. -/
def eventsOf (method url : Bytes) (around : Surroundings) : List ClientEvent :=
  match splitUrl url with
  | none => []
  | some target =>
      if !around.connected then []
      else .request (startRequest method target) target.scheme target.host around.now ::
        (parseResponse around.net).calls.filterMap fun call =>
          call.map fun res =>
            .response (res.parseCookie around.zone around.later around.isdst) target.host

/-- The callback of `parseResponse` is called for one response after the other. -/
theorem foldl_receive (around : Surroundings) (host : Bytes) (calls : List (Option Response))
    (client : Client) : calls.foldl (receive around host) client =
      (calls.filterMap fun call => call.map fun res => ClientEvent.response
        (res.parseCookie around.zone around.later around.isdst) host).foldl step client := by
  induction calls generalizing client with
  | nil => rfl
  | cons call calls ih =>
      cases call with
      | none => exact ih _
      | some res => exact ih _

/-- A request steps through the events of the jar. -/
theorem request_client (client : Client) (method url : Bytes) (around : Surroundings) :
    (client.request method url around).client =
      (eventsOf method url around).foldl step client := by
  unfold request eventsOf
  cases splitUrl url with
  | none => rfl
  | some target =>
      cases around.connected with
      | false => rfl
      | true =>
          change (parseResponse around.net).calls.foldl (receive around target.host) _ =
            (ClientEvent.request _ _ _ _ :: _).foldl step client
          rw [foldl_receive, List.foldl_cons]
          simp only [step, addCookieInPlace_eq]

/-- So the requests of a client, one after the other, are a run. -/
theorem request_run (events : List ClientEvent) (method url : Bytes) (around : Surroundings) :
    ((run events).request method url around).client =
      run (events ++ eventsOf method url around) := by
  rw [request_client, run, run, List.foldl_append]

end Client

/-! ## From the response to the jar -/

section Stored

variable {host : Bytes} {jar cookies : List ResponseCookie} {c : ResponseCookie}
  {zone now : Int}

theorem mem_foldl_of_ne (member : c ∈ jar) (others : ∀ r ∈ cookies, r.key ≠ c.key) :
    c ∈ cookies.foldl (Client.storeCookie host) jar := by
  induction cookies generalizing jar with
  | nil => exact member
  | cons r cookies ih =>
      rcases List.forall_mem_cons.mp others with ⟨other, others⟩
      exact ih (mem_store_of_ne member (Ne.symm other)) others

/-- The last cookie of its key is in the jar. -/
theorem mem_foldl_of_last {before after : List ResponseCookie}
    (isLast : ∀ r ∈ after, r.key ≠ c.key) :
    c.withDefaults host ∈ (before ++ c :: after).foldl (Client.storeCookie host) jar := by
  rw [List.foldl_append, List.foldl_cons]
  exact mem_foldl_of_ne (mem_store_self _ _ _) isLast

/-- What is written to Set-Cookie headers is parsed as the cookies it was written
for. -/
theorem parse_headerVals (plain : ∀ c ∈ cookies, c.Storable ∧ c.expires = 0 ∧
    byte '=' ∉ c.val ∧ byte '=' ∉ c.domain ∧ byte '=' ∉ c.path) (isdst : Nat → Nat → Int) :
    ((cookies.map ResponseCookie.headerVal).zipIdx.map fun call =>
      parseResponseCookie zone now (isdst call.2) call.1) = cookies := by
  rw [List.zipIdx_map, List.map_map]
  have same : ∀ turn ∈ cookies.zipIdx,
      parseResponseCookie zone now (isdst turn.2) turn.1.headerVal = turn.1 := by
    intro turn member
    obtain ⟨storable, undated, val, domain, path⟩ :=
      plain turn.1 (List.fst_mem_of_mem_zipIdx member)
    have uncut {s : Bytes} (absent : byte '=' ∉ s) : ResponseCookie.cut s = s :=
      headD_explode_eq_iff.mpr absent
    rw [ResponseCookie.parseResponseCookie_headerVal zone now _ storable undated, uncut val,
      uncut domain, uncut path]
  exact (List.map_congr_left same).trans (List.zipIdx_map_fst 0 cookies)

end Stored

/-! ## From the jar to the server -/

section Sent

variable {client : Client} {method : Bytes} {target : Target} {around : Surroundings}

/-- The cookies that go with a request. -/
def Client.pairsFor (client : Client) (method : Bytes) (target : Target) (now : Int) :
    List RequestCookie :=
  (client.cookiesFor (startRequest method target).path target.scheme target.host now).map
    fun c => ⟨c.key, c.val⟩

/-- Nothing in them is taken apart by the reader, and none takes the value of
its neighbour. -/
structure Plain (cookies : List RequestCookie) : Prop where
  wordlike : ∀ c ∈ cookies, c.Wordlike
  equals : ∀ c ∈ cookies, byte '=' ∉ c.val
  valuesLast : ValuesLast cookies

theorem parseRequestCookie_of_plain {req : Request} {cookies : List RequestCookie}
    (missing : req.getHeader (str "Cookie") = none) (plain : Plain cookies) :
    parseRequestCookie (cookies.foldl Request.setCookie req).cookieHeader = cookies := by
  have fromNone : ValuesLast ({} :: cookies) := by
    have chain := plain.valuesLast
    cases cookies with
    | nil => exact .singleton _
    | cons c cookies => exact .cons_cons (fun _ => rfl) chain
  unfold parseRequestCookie StringTokenizer.ofDelims
  rw [explodeBoth_cookieHeader missing plain.wordlike,
    foldl_parseRequestCookieStep plain.wordlike, List.nil_append]
  exact (readPairs_eq_iff List.not_mem_nil).mpr ⟨plain.equals, fromNone⟩

theorem getHeader_newRequest (enabled : client.enableCookie = true) :
    (client.newRequest method target around.now).getHeader (str "Cookie") =
      ((client.pairsFor method target around.now).foldl Request.setCookie
        (Client.startRequest method target)).getHeader (str "Cookie") := by
  have isNew : client.newRequest method target around.now =
      if target.auth = [] then (client.pairsFor method target around.now).foldl Request.setCookie
        (Client.startRequest method target)
      else ((client.pairsFor method target around.now).foldl Request.setCookie
        (Client.startRequest method target)).basicAuth target.auth := by
    simp only [Client.newRequest, enabled, if_true, addCookieInPlace_eq,
      Client.addCookieToRequest, ite_not, Client.pairsFor, List.foldl_map]
    rfl
  rw [isNew]
  split
  · rfl
  · rw [getHeader_eq_head?, getHeader_eq_head?]
    exact congrArg List.head? (Package.getHeaders_setHeader_of_ne (by decide))

theorem cookieJar_parseCookie {req : Request} (fresh : req.cookieJar = []) :
    req.parseCookie.cookieJar = parseRequestCookie req.parseCookie.cookieHeader := by
  have same : req.parseCookie.cookieHeader = req.cookieHeader := by
    rw [Request.cookieHeader, Request.cookieHeader, Request.parseCookie_toPackage]
  rw [same, Request.cookieHeader]
  unfold Request.parseCookie
  cases req.getHeader (str "Cookie") with
  | none => exact fresh
  | some header => rfl

/-- The server reads the cookies that the client has chosen. -/
theorem cookieJar_received (enabled : client.enableCookie = true) (quiet : around.Quiet)
    (leaves : around.Leaves (str "Cookie"))
    (plain : Plain (client.pairsFor method target around.now)) :
    (client.sending method target around).received.cookieJar =
      client.pairsFor method target around.now := by
  have missing : (Client.startRequest method target).getHeader (str "Cookie") = none := by
    unfold Client.startRequest Request.setTarget
    split <;> rfl
  have header : (client.sending method target around).received.getHeader (str "Cookie") =
      ((client.pairsFor method target around.now).foldl Request.setCookie
        (Client.startRequest method target)).getHeader (str "Cookie") := by
    rw [← getHeader_newRequest enabled, getHeader_eq_head?,
      getHeaders_received_of_ne quiet (by decide) (by decide) (by decide),
      userHeaders_of_leaves leaves, Package.getHeader_eq]
  have isHeader := congrArg (fun header => parseRequestCookie (header.getD [])) header
  rw [Sending.received, Request.received, cookieJar_parseCookie rfl]
  exact isHeader.trans (parseRequestCookie_of_plain missing plain)

/-- The value that the server finds under the key of a cookie. -/
theorem getCookieValue_received {c : ResponseCookie} (enabled : client.enableCookie = true)
    (unique : (client.cookieJar.map (·.key)).Nodup) (quiet : around.Quiet)
    (leaves : around.Leaves (str "Cookie"))
    (plain : Plain (client.pairsFor method target around.now))
    (chosen : c ∈ client.cookiesFor (Client.startRequest method target).path target.scheme
      target.host around.now) :
    (client.sending method target around).received.getCookieValue c.key = some c.val := by
  rw [Request.getCookieValue, cookieJar_received enabled quiet leaves plain, Client.pairsFor,
    List.find?_map, Option.map_map]
  have unique' : ((client.cookiesFor (Client.startRequest method target).path target.scheme
      target.host around.now).map (·.key)).Nodup :=
    unique.sublist ((List.filter_sublist.trans List.filter_sublist).map _)
  obtain ⟨found, isFound⟩ : ∃ found, (client.cookiesFor (Client.startRequest method target).path
      target.scheme target.host around.now).find? (fun r => r.key == c.key) = some found := by
    apply Option.isSome_iff_exists.mp
    rw [List.find?_isSome]
    exact ⟨c, chosen, beq_self_eq_true _⟩
  have same : found = c := List.inj_on_of_nodup_map unique' (List.mem_of_find?_eq_some isFound)
    chosen (by simpa using List.find?_some isFound)
  rw [same] at isFound
  exact congrArg (Option.map _) isFound

end Sent

/-! ## A session -/

/-- The call leaves the cookies of this key in the jar. -/
def Keeps (key : Bytes) : ClientEvent → Prop
  | .request _ _ _ _ => True
  | .response cookies _ => ∀ r ∈ cookies, r.key ≠ key
  | .enableCookie => True
  | .disableCookie => False
  | .clearCookie => False

section Session

variable {client : Client} {c : ResponseCookie} {e : ClientEvent} {between : List ClientEvent}

theorem mem_step_of_keeps (member : c ∈ client.cookieJar) (undated : c.expires = 0)
    (enabled : client.enableCookie = true) (keeps : Keeps c.key e) :
    c ∈ (client.step e).cookieJar ∧ (client.step e).enableCookie = true := by
  cases e with
  | request req scheme host now =>
      simp only [Client.step, enabled, if_true]
      refine ⟨List.mem_filter.mpr ⟨member, ?_⟩, enabled⟩
      simp [ResponseCookie.expired, undated]
  | response cookies host =>
      simp only [Client.step, enabled, if_true]
      exact ⟨mem_foldl_of_ne member keeps, enabled⟩
  | enableCookie => exact ⟨member, rfl⟩
  | disableCookie => exact keeps.elim
  | clearCookie => exact keeps.elim

theorem mem_foldl_of_keeps (member : c ∈ client.cookieJar) (undated : c.expires = 0)
    (enabled : client.enableCookie = true) (keeps : ∀ e ∈ between, Keeps c.key e) :
    c ∈ (between.foldl Client.step client).cookieJar ∧
      (between.foldl Client.step client).enableCookie = true := by
  induction between generalizing client with
  | nil => exact ⟨member, enabled⟩
  | cons e between ih =>
      rcases List.forall_mem_cons.mp keeps with ⟨here, later⟩
      obtain ⟨member', enabled'⟩ := mem_step_of_keeps member undated enabled here
      exact ih member' enabled' later

variable {events : List ClientEvent} {method method' url url' : Bytes} {target target' : Target}
  {around around' : Surroundings} {res : Response} {ops : List MessageOp}
  {before after : List ResponseCookie} {server : Net}

/-- The cookies of a response are in the jar behind the request. -/
theorem mem_run_of_response (understood : splitUrl url = some target)
    (connected : around.connected = true) (enabled : (Client.run events).enableCookie = true)
    (once : (parseResponse around.net).calls = [some res])
    (cookies : res.parseCookie around.zone around.later around.isdst = before ++ c :: after)
    (isLast : ∀ r ∈ after, r.key ≠ c.key) :
    c.withDefaults target.host ∈
        (Client.run (events ++ Client.eventsOf method url around)).cookieJar ∧
      (Client.run (events ++ Client.eventsOf method url around)).enableCookie = true := by
  have isEvents : Client.eventsOf method url around =
      [.request (Client.startRequest method target) target.scheme target.host around.now,
        .response (before ++ c :: after) target.host] := by
    simp only [Client.eventsOf, understood, connected, once]
    simp [cookies]
  rw [isEvents, Client.run, List.foldl_append, ← Client.run]
  simp only [List.foldl_cons, List.foldl_nil, Client.step, enabled, if_true,
    Client.addCookieToRequest, Client.purge, Client.addCookieToCookieJar]
  exact ⟨mem_foldl_of_last isLast, trivial⟩

/-- **A session cookie comes back.** The server sets cookies in its response to
a request, other requests and responses follow that leave the key alone, and
the next request to which the cookie applies brings all cookies that the client
has chosen, and this one with its value. -/
theorem session_cookie_comes_back (understood : splitUrl url = some target)
    (connected : around.connected = true) (enabled : (Client.run events).enableCookie = true)
    (plain : res.PlainVersion) (unsent : res.toPackage.Unsent)
    (readable : res.toPackage.Readable res.stockBody ops)
    (settled : around.net.buf.length ≤ maxRead)
    (brings : around.net.remaining = ((Message.response res).sent ops).flatten)
    (sets : res.headersSent res.stockBody ops (headerKey (str "Set-Cookie")) =
      (before ++ c :: after).map ResponseCookie.headerVal)
    (storable : ∀ r ∈ before ++ c :: after, r.Storable ∧ r.expires = 0 ∧
      byte '=' ∉ r.val ∧ byte '=' ∉ r.domain ∧ byte '=' ∉ r.path)
    (isLast : ∀ r ∈ after, r.key ≠ c.key) (keeps : ∀ e ∈ between, Keeps c.key e)
    (isClient : client = Client.run (events ++ Client.eventsOf method url around ++ between))
    (understood' : splitUrl url' = some target') (connected' : around'.connected = true)
    (quiet : around'.Quiet) (leaves : around'.Leaves (str "Cookie"))
    (readable' : (client.sending method' target' around').Readable)
    (applies : Client.sends (Client.startRequest method' target').path target'.scheme
      target'.host (c.withDefaults target.host) = true)
    (plain' : Plain (client.pairsFor method' target' around'.now))
    (settled' : server.buf.length ≤ maxRead)
    (comes : server.remaining = (client.request method' url' around').sent.flatten) :
    ∃ req, (parseRequest server).calls = [some req] ∧
      req.cookieJar = client.pairsFor method' target' around'.now ∧
      req.getCookieValue c.key = some c.val := by
  obtain ⟨t, run, -⟩ := Response.parse_of_response plain unsent readable settled
    (brings.trans (List.append_nil _).symm) (.inl rfl)
  have cookies : (res.received ops).parseCookie around.zone around.later around.isdst =
      before ++ c :: after := by
    rw [Response.parseCookie, Package.getHeaders_eq, Response.headerMap_received unsent.whole,
      sets]
    exact parse_headerVals storable _
  have undated : c.expires = 0 := (storable c (by simp)).2.1
  obtain ⟨stored, enabled'⟩ := mem_run_of_response understood connected
    enabled (by rw [run]) cookies isLast
  obtain ⟨kept, enabled''⟩ :=
    mem_foldl_of_keeps (c := c.withDefaults target.host) stored undated enabled' keeps
  have isRun : between.foldl Client.step
      (Client.run (events ++ Client.eventsOf method url around)) = client := by
    rw [isClient]
    exact List.foldl_append.symm
  rw [isRun] at kept enabled''
  have unique : (client.cookieJar.map (·.key)).Nodup := isClient ▸ Client.nodup_run _
  obtain ⟨sent, -⟩ := client.request_of_connected method' understood' connected'
  refine ⟨_, parse_of_sending readable' settled' (comes.trans (congrArg List.flatten sent)),
    cookieJar_received enabled'' quiet leaves plain', ?_⟩
  refine getCookieValue_received (c := c.withDefaults target.host) enabled'' unique quiet leaves
    plain' (List.mem_filter.mpr ⟨List.mem_filter.mpr ⟨kept, ?_⟩, applies⟩)
  have fresh : (c.withDefaults target.host).expires = 0 := undated
  simp [ResponseCookie.expired, fresh]

end Session

/-! ## One cookie -/

def pageTarget : Target := ⟨str "http", [], str "h", str "80", str "/a"⟩

theorem splitUrl_pageTarget : splitUrl (str "http://h/a") = some pageTarget := by decide +kernel

/-- The response sets a cookie. -/
def cookieOps : List MessageOp := [.addHeader (str "Set-Cookie") (str "k=v")]

def cookieResponse : Bytes := ((Message.response {}).sent cookieOps).flatten

/-- A connection that brings it. -/
def withCookie : Surroundings := calm (oneRead cookieResponse (by decide +kernel))

theorem readable_cookieOps : ({} : Response).Readable ({} : Response).stockBody cookieOps := by
  decide +kernel

/-- The client behind the first request. -/
def nextClient : Client where
  cookieJar := [{ key := str "k", val := str "v", domain := str "h", path := str "/" }]
  enableCookie := true

theorem nextClient_eq : nextClient = Client.run ([.enableCookie] ++
    Client.eventsOf (str "GET") (str "http://h/a") withCookie ++ []) := by
  decide +kernel

def nextSending : Sending := nextClient.sending (str "GET") pageTarget withCookie

theorem readable_nextSending : nextSending.Readable := by decide +kernel

/-- The cookie. -/
def kCookie : ResponseCookie := { key := str "k", val := str "v" }

theorem sets_cookieOps : ({} : Response).headersSent ({} : Response).stockBody cookieOps
    (headerKey (str "Set-Cookie")) = ([] ++ kCookie :: []).map ResponseCookie.headerVal := by
  decide +kernel

theorem storable_kCookie : ∀ r ∈ [] ++ kCookie :: [], r.Storable ∧ r.expires = 0 ∧
    byte '=' ∉ r.val ∧ byte '=' ∉ r.domain ∧ byte '=' ∉ r.path :=
  List.forall_mem_singleton.mpr (by decide)

theorem session_cookie_comes_back_of_one : ∃ req,
    (parseRequest (oneRead nextSending.bytes (by decide +kernel))).calls = [some req] ∧
      req.getCookieValue (str "k") = some (str "v") := by
  have connected : withCookie.connected = true := rfl
  have enabled : (Client.run [.enableCookie]).enableCookie = true := rfl
  have plain : ({} : Response).PlainVersion := ⟨by decide, by decide⟩
  obtain ⟨sent, -⟩ := nextClient.request_of_connected (str "GET") splitUrl_pageTarget connected
  have returned : withCookie.net.remaining = ((Message.response {}).sent cookieOps).flatten :=
    oneRead_remaining _ (by decide +kernel)
  have fresh : Plain (nextClient.pairsFor (str "GET") pageTarget withCookie.now) :=
    ⟨by decide +kernel, by decide +kernel, by decide +kernel⟩
  have comes : (oneRead nextSending.bytes (by decide +kernel)).remaining =
      (nextClient.request (str "GET") (str "http://h/a") withCookie).sent.flatten :=
    ((oneRead_remaining nextSending.bytes (by decide +kernel)).trans (List.append_nil _)).trans
      (congrArg List.flatten sent).symm
  obtain ⟨req, calls, -, found⟩ := session_cookie_comes_back splitUrl_pageTarget connected
    enabled plain ⟨rfl, rfl, rfl⟩ readable_cookieOps (by exact Nat.zero_le _) returned
    sets_cookieOps storable_kCookie (List.forall_mem_nil _) (List.forall_mem_nil _) nextClient_eq
    splitUrl_pageTarget connected (quiet_calm _) (leaves_calm _ _) readable_nextSending
    (by decide +kernel) fresh (by exact Nat.zero_le _) comes
  exact ⟨req, calls, found⟩

end Ahttpd

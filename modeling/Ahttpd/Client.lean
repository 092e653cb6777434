import Ahttpd.Basis.Keyed
import Ahttpd.Matching
import Ahttpd.Request
import Ahttpd.Response

/-!
# The cookie jar of the client

All requests of a `Client` share one jar. `add_cookie_to_cookie_jar` stores the
cookies of a response and `add_cookie_to_request` puts stored cookies on a
request; both hold the cookie mutex, so a run is a sequence of whole calls,
for any hosts and in any order. The domain of a cookie is compared with the
host of a request, but not with the host that sent it
(`cookiesIsolated_iff`). A cookie takes the place of one of the same key,
whatever its domain and path: against the map of the latest cookie for each
key, domain and path, the jar is right exactly as long as no two of these meet
in one key (`lastWriter_iff`).
-/

namespace Ahttpd

open Basis

namespace ResponseCookie

/-- The domain and the path that a cookie without them gets. -/
def withDefaults (c : ResponseCookie) (host : Bytes) : ResponseCookie :=
  { c with
    domain := if c.domain = [] then host else c.domain
    path := if c.path = [] then str "/" else c.path }

def expired (c : ResponseCookie) (now : Int) : Bool := c.expires ≠ 0 && c.expires < now

end ResponseCookie

/-- What the requests of a `Client` share. -/
structure Client where
  cookieJar : List ResponseCookie := []
  enableCookie : Bool := false
  deriving DecidableEq

/-- A call that reads or writes the jar. -/
inductive ClientEvent
  | request (req : Request) (scheme host : Bytes) (now : Int)
  | response (cookieJar : List ResponseCookie) (host : Bytes)
  | enableCookie
  | disableCookie
  | clearCookie

namespace Client

/-- The tests of a stored cookie for a request. -/
def sends (path scheme host : Bytes) (c : ResponseCookie) : Bool :=
  if !isPathMatch path c.path then false
  else if !isDomainMatch host c.domain then false
  else if c.secure && scheme != str "https" then false
  else true

/-- A request to the domain and the path of a cookie itself. -/
theorem sends_self (c : ResponseCookie) : sends c.path (str "https") c.domain c = true := by
  simp [sends, isPathMatch_self, isDomainMatch_self]

/-- The jar without the cookies that have expired. -/
def purge (client : Client) (now : Int) : Client :=
  { client with cookieJar := client.cookieJar.filter fun c => !c.expired now }

/-- The cookies that `add_cookie_to_request` puts on a request, in order. -/
def cookiesFor (client : Client) (path scheme host : Bytes) (now : Int) : List ResponseCookie :=
  (client.purge now).cookieJar.filter (sends path scheme host)

def addCookieToRequest (client : Client) (req : Request) (scheme host : Bytes) (now : Int) :
    Client × Request :=
  (client.purge now,
    (client.cookiesFor req.path scheme host now).foldl
      (fun req c => req.setCookie ⟨c.key, c.val⟩) req)

/-- The jar after one cookie of a response. -/
def storeCookie (host : Bytes) (jar : List ResponseCookie) (c : ResponseCookie) :
    List ResponseCookie :=
  store (·.key) (c.withDefaults host) jar

def addCookieToCookieJar (client : Client) (cookies : List ResponseCookie) (host : Bytes) :
    Client :=
  { client with cookieJar := cookies.foldl (storeCookie host) client.cookieJar }

def step (client : Client) : ClientEvent → Client
  | .request req scheme host now =>
      if client.enableCookie then (client.addCookieToRequest req scheme host now).1 else client
  | .response cookies host =>
      if client.enableCookie then client.addCookieToCookieJar cookies host else client
  | .enableCookie => { client with enableCookie := true }
  | .disableCookie => { cookieJar := [], enableCookie := false }
  | .clearCookie => { client with cookieJar := [] }

/-- A run from a new client. -/
def run (events : List ClientEvent) : Client := events.foldl step {}

theorem run_concat (events : List ClientEvent) (e : ClientEvent) :
    run (events ++ [e]) = (run events).step e := by
  simp only [run, List.foldl_append, List.foldl_cons, List.foldl_nil]

/-! ## Where a cookie comes from -/

/-- The cookie, before its defaults, was in a response of `host` that the
client took cookies from. -/
def StoredFrom (events : List ClientEvent) (host : Bytes) (r : ResponseCookie) : Prop :=
  ∃ before cookies, before ++ [.response cookies host] <+: events ∧
    (run before).enableCookie = true ∧ r ∈ cookies

theorem mem_foldl_storeCookie {host : Bytes} {jar cookies : List ResponseCookie}
    {c : ResponseCookie} (member : c ∈ cookies.foldl (storeCookie host) jar) :
    c ∈ jar ∨ ∃ r ∈ cookies, c = r.withDefaults host := by
  induction cookies generalizing jar with
  | nil => exact .inl member
  | cons r cookies ih =>
      rcases ih member with stored | ⟨r', fromRest, same⟩
      · rcases mem_store stored with same | old
        · exact .inr ⟨r, List.mem_cons_self, same⟩
        · exact .inl old
      · exact .inr ⟨r', List.mem_cons_of_mem _ fromRest, same⟩

/-- A call adds only cookies of the response it is given. -/
theorem mem_step {client : Client} {e : ClientEvent} {c : ResponseCookie}
    (member : c ∈ (client.step e).cookieJar) :
    c ∈ client.cookieJar ∨ ∃ cookies host, e = .response cookies host ∧
      client.enableCookie = true ∧ ∃ r ∈ cookies, c = r.withDefaults host := by
  cases e with
  | request req scheme host now =>
      simp only [step] at member
      split at member
      · exact .inl (List.mem_of_mem_filter member)
      · exact .inl member
  | response cookies host =>
      simp only [step] at member
      split at member
      · rename_i enabled
        rcases mem_foldl_storeCookie member with old | new
        · exact .inl old
        · exact .inr ⟨cookies, host, rfl, enabled, new⟩
      · exact .inl member
  | enableCookie => exact .inl member
  | disableCookie => exact absurd member List.not_mem_nil
  | clearCookie => exact absurd member List.not_mem_nil

/-- **Provenance.** After any run every cookie of the jar has been received. -/
theorem storedFrom_of_mem_run {events : List ClientEvent} {c : ResponseCookie}
    (member : c ∈ (run events).cookieJar) :
    ∃ host r, StoredFrom events host r ∧ c = r.withDefaults host := by
  induction events using List.reverseRecOn with
  | nil => exact absurd member List.not_mem_nil
  | append_singleton events e ih =>
      rw [run_concat] at member
      rcases mem_step member with old | ⟨cookies, host, rfl, enabled, r, fromHere, same⟩
      · rcases ih old with ⟨host, r, ⟨before, cookies, earlier, enabled, carried⟩, same⟩
        have still := earlier.trans (List.prefix_append events [e])
        exact ⟨host, r, ⟨before, cookies, still, enabled, carried⟩, same⟩
      · exact ⟨host, r, ⟨events, cookies, List.prefix_rfl, enabled, fromHere⟩, same⟩

/-! ## Domains -/

/-- After the run, a cookie that goes to a host came from a host of the
cookie's domain. -/
def CookiesIsolated (events : List ClientEvent) : Prop :=
  ∀ path scheme host now, ∀ c ∈ (run events).cookiesFor path scheme host now,
    ∃ origin r, StoredFrom events origin r ∧ c = r.withDefaults origin ∧
      isDomainMatch origin c.domain = true ∧ isDomainMatch host c.domain = true

/-- The test that `add_cookie_to_cookie_jar` does not make. -/
def OwnDomain (host : Bytes) (r : ResponseCookie) : Prop :=
  r.domain = [] ∨ isDomainMatch host r.domain = true

theorem isDomainMatch_of_ownDomain {host : Bytes} {r : ResponseCookie}
    (own : OwnDomain host r) : isDomainMatch host (r.withDefaults host).domain = true := by
  unfold ResponseCookie.withDefaults
  by_cases missing : r.domain = []
  · simp only [missing, if_true]
    exact isDomainMatch_self host
  · simp only [missing, if_false]
    exact own.resolve_left missing

theorem of_mem_cookiesFor {client : Client} {path scheme host : Bytes} {now : Int}
    {c : ResponseCookie} (member : c ∈ client.cookiesFor path scheme host now) :
    c ∈ client.cookieJar ∧ isDomainMatch host c.domain = true := by
  rcases List.mem_filter.mp member with ⟨kept, passes⟩
  refine ⟨List.mem_of_mem_filter kept, ?_⟩
  simp only [sends] at passes
  split at passes
  · cases passes
  · split at passes
    · cases passes
    · rename_i matching
      simpa using matching

/-- In a run with one response, the cookies are of that response. -/
theorem storedFrom_single {host origin : Bytes} {r r' : ResponseCookie}
    (stored : StoredFrom [.enableCookie, .response [r] host] origin r') :
    r' = r ∧ origin = host := by
  rcases stored with ⟨before, cookies, earlier, -, carried⟩
  have member : ClientEvent.response cookies origin ∈ [.enableCookie, .response [r] host] :=
    earlier.subset (List.mem_append_right _ (List.mem_singleton_self _))
  obtain ⟨rfl, rfl⟩ : cookies = [r] ∧ origin = host := by simpa using member
  exact ⟨List.mem_singleton.mp carried, rfl⟩

/-- A cookie of a foreign domain goes to a host of that domain. -/
theorem not_isolated_of_foreign {host : Bytes} {r : ResponseCookie} (foreign : ¬OwnDomain host r) :
    ¬CookiesIsolated [.enableCookie, .response [r] host] := by
  intro isolated
  rcases not_or.mp foreign with ⟨hasDomain, outside⟩
  have sent : r.withDefaults host ∈
      (run [.enableCookie, .response [r] host]).cookiesFor (r.withDefaults host).path
        (str "https") r.domain r.expires := by
    have matching := sends_self (r.withDefaults host)
    simp only [ResponseCookie.withDefaults, hasDomain, if_false] at matching
    simp [run, step, addCookieToCookieJar, storeCookie, store, cookiesFor, purge, matching,
      ResponseCookie.expired, ResponseCookie.withDefaults, hasDomain]
  rcases isolated _ _ _ _ _ sent with ⟨origin, r', stored, same, matching, -⟩
  rcases storedFrom_single stored with ⟨rfl, rfl⟩
  apply outside
  simpa [ResponseCookie.withDefaults, hasDomain] using matching

/-- **Domain isolation.** Whatever the hosts send, it is kept in every run
exactly when they send only cookies without a domain or of their own. -/
theorem cookiesIsolated_iff (carries : Bytes → ResponseCookie → Prop) :
    (∀ events, (∀ host r, StoredFrom events host r → carries host r) →
      CookiesIsolated events) ↔
    ∀ host r, carries host r → OwnDomain host r := by
  constructor
  · intro isolated host r carried
    by_contra foreign
    apply not_isolated_of_foreign foreign
    apply isolated
    intro origin r' stored
    rcases storedFrom_single stored with ⟨rfl, rfl⟩
    exact carried
  · intro own events carried path scheme host now c sent
    rcases of_mem_cookiesFor sent with ⟨stored, matching⟩
    rcases storedFrom_of_mem_run stored with ⟨origin, r, received, rfl⟩
    have ownDomain : OwnDomain origin r := own origin r (carried origin r received)
    exact ⟨origin, r, received, rfl, isDomainMatch_of_ownDomain ownDomain, matching⟩

/-- A host plants a cookie for a bank. -/
theorem planted_cookie : ¬CookiesIsolated [.enableCookie,
    .response [{ key := str "sid", val := str "evil", domain := str "bank.example" }]
      (str "evil.example")] := by
  apply not_isolated_of_foreign
  unfold OwnDomain
  decide

/-! ## The latest cookie for each identity -/

end Client

/-- What makes two cookies the same cookie: the key, the domain and the path. -/
abbrev CookieId := Bytes × Bytes × Bytes

def ResponseCookie.ident (c : ResponseCookie) : CookieId := (c.key, c.domain, c.path)

/-- What a jar is for: the latest cookie of each identity. -/
structure CookieStore where
  latest : CookieId → Option ResponseCookie := fun _ => none
  enabled : Bool := false

namespace CookieStore

def receive (host : Bytes) (latest : CookieId → Option ResponseCookie) (c : ResponseCookie) :
    CookieId → Option ResponseCookie :=
  Function.update latest (c.withDefaults host).ident (some (c.withDefaults host))

def step (s : CookieStore) : ClientEvent → CookieStore
  | .request _ _ _ now =>
      if s.enabled then
        { s with latest := fun i => (s.latest i).filter fun c => !c.expired now }
      else s
  | .response cookies host =>
      if s.enabled then { s with latest := cookies.foldl (receive host) s.latest } else s
  | .enableCookie => { s with enabled := true }
  | .disableCookie => {}
  | .clearCookie => { s with latest := fun _ => none }

def run (events : List ClientEvent) : CookieStore := events.foldl step {}

theorem run_concat (events : List ClientEvent) (e : ClientEvent) :
    run (events ++ [e]) = (run events).step e := by
  simp only [run, List.foldl_append, List.foldl_cons, List.foldl_nil]

/-- Some key has two identities. -/
def Shared (latest : CookieId → Option ResponseCookie) : Prop :=
  ∃ i j, i ≠ j ∧ i.1 = j.1 ∧ (latest i).isSome = true ∧ (latest j).isSome = true

theorem Shared.foldl_receive {latest : CookieId → Option ResponseCookie} (shared : Shared latest)
    (host : Bytes) (cookies : List ResponseCookie) :
    Shared (cookies.foldl (receive host) latest) := by
  induction cookies generalizing latest with
  | nil => exact shared
  | cons c cookies ih =>
      rcases shared with ⟨i, j, distinct, sameKey, one, two⟩
      have still : ∀ k, (latest k).isSome = true → (receive host latest c k).isSome = true := by
        intro k had
        unfold receive
        by_cases here : k = (c.withDefaults host).ident
        · rw [here, Function.update_self]
          rfl
        · rwa [Function.update_of_ne here]
      exact ih ⟨i, j, distinct, sameKey, still i one, still j two⟩

end CookieStore

namespace Client

/-- At each moment of the run the jar holds, for each identity, exactly the
latest cookie that has not been purged or cleared. -/
def LastWriter (events : List ClientEvent) : Prop :=
  ∀ before, before <+: events →
    Represents ResponseCookie.ident (run before).cookieJar (CookieStore.run before).latest

/-- A cookie that can go into the jar: all cookies there of its key have its
domain and its path. -/
def Fits (host : Bytes) (jar : List ResponseCookie) (c : ResponseCookie) : Prop :=
  ∀ o ∈ jar, o.key = c.key → o.ident = (c.withDefaults host).ident

/-- The cookies of a response can go into the jar one after the other. -/
def AllFit (host : Bytes) : List ResponseCookie → List ResponseCookie → Prop
  | _, [] => True
  | jar, c :: cookies => Fits host jar c ∧ AllFit host (storeCookie host jar c) cookies

/-- Every response of the run can be stored. -/
def KeysApart (events : List ClientEvent) : Prop :=
  ∀ before cookies host, before ++ [.response cookies host] <+: events →
    (run before).enableCookie = true → AllFit host (run before).cookieJar cookies

theorem nodup_foldl_storeCookie {jar : List ResponseCookie} (unique : (jar.map (·.key)).Nodup)
    (host : Bytes) (cookies : List ResponseCookie) :
    ((cookies.foldl (storeCookie host) jar).map (·.key)).Nodup := by
  induction cookies generalizing jar with
  | nil => exact unique
  | cons c cookies ih => exact ih (nodup_store unique)

/-- The jar has no key twice. -/
theorem nodup_run (events : List ClientEvent) : ((run events).cookieJar.map (·.key)).Nodup := by
  induction events using List.reverseRecOn with
  | nil => exact List.nodup_nil
  | append_singleton events e ih =>
      rw [run_concat]
      cases e with
      | request req scheme host now =>
          simp only [step]
          split
          · exact ih.sublist (List.filter_sublist.map _)
          · exact ih
      | response cookies host =>
          simp only [step]
          split
          · exact nodup_foldl_storeCookie ih host cookies
          · exact ih
      | enableCookie => exact ih
      | disableCookie => exact List.nodup_nil
      | clearCookie => exact List.nodup_nil

theorem enabled_run (events : List ClientEvent) :
    (CookieStore.run events).enabled = (run events).enableCookie := by
  induction events using List.reverseRecOn with
  | nil => rfl
  | append_singleton events e ih =>
      rw [CookieStore.run_concat, run_concat]
      cases e <;> simp only [CookieStore.step, step, ih]
      all_goals split <;> first | exact ih | rfl

section Store

variable {jar : List ResponseCookie} {latest : CookieId → Option ResponseCookie} {host : Bytes}

theorem represents_storeCookie {c : ResponseCookie}
    (represents : Represents ResponseCookie.ident jar latest) (fits : Fits host jar c) :
    Represents ResponseCookie.ident (storeCookie host jar c)
      (CookieStore.receive host latest c) := by
  have byIdent : storeCookie host jar c =
      store ResponseCookie.ident (c.withDefaults host) jar := by
    apply store_congr
    intro o member
    exact ⟨fits o member, congrArg Prod.fst⟩
  rw [byIdent]
  exact represents.store _

/-- A cookie that does not fit leaves two identities under its key. -/
theorem shared_of_not_fits {c : ResponseCookie}
    (represents : Represents ResponseCookie.ident jar latest) (misfit : ¬Fits host jar c) :
    CookieStore.Shared (CookieStore.receive host latest c) := by
  simp only [Fits, not_forall] at misfit
  rcases misfit with ⟨o, member, sameKey, distinct⟩
  refine ⟨o.ident, (c.withDefaults host).ident, distinct, sameKey, ?_, ?_⟩
  · rw [CookieStore.receive, Function.update_of_ne distinct, represents.eq_some_of_mem member]
    rfl
  · rw [CookieStore.receive, Function.update_self]
    rfl

theorem not_represents_of_shared (unique : (jar.map (·.key)).Nodup)
    (shared : CookieStore.Shared latest) : ¬Represents ResponseCookie.ident jar latest := by
  intro represents
  rcases shared with ⟨i, j, distinct, sameKey, one, two⟩
  rcases Option.isSome_iff_exists.mp one with ⟨c, one⟩
  rcases Option.isSome_iff_exists.mp two with ⟨d, two⟩
  have isI : c.ident = i := (represents.mem_of_eq_some one).2
  have isJ : d.ident = j := (represents.mem_of_eq_some two).2
  subst isI isJ
  exact distinct (represents.eq_of_nodup unique one two sameKey)

/-- The cookies of one response. -/
theorem represents_foldl_iff (represents : Represents ResponseCookie.ident jar latest)
    (unique : (jar.map (·.key)).Nodup) (cookies : List ResponseCookie) :
    Represents ResponseCookie.ident (cookies.foldl (storeCookie host) jar)
      (cookies.foldl (CookieStore.receive host) latest) ↔ AllFit host jar cookies := by
  induction cookies generalizing jar latest with
  | nil => exact ⟨fun _ => trivial, fun _ => represents⟩
  | cons c cookies ih =>
      have unique' : ((storeCookie host jar c).map (·.key)).Nodup := nodup_store unique
      by_cases fits : Fits host jar c
      · rw [AllFit, and_iff_right fits]
        exact ih (represents_storeCookie represents fits) unique'
      · have shared := (shared_of_not_fits represents fits).foldl_receive host cookies
        have broken := not_represents_of_shared
          (nodup_foldl_storeCookie unique' host cookies) shared
        exact iff_of_false broken fun fit => fits fit.1

end Store

/-- One call: only a response can go wrong, and it does exactly when a cookie
does not fit. -/
theorem represents_concat_iff {events : List ClientEvent} {e : ClientEvent}
    (represents : Represents ResponseCookie.ident (run events).cookieJar
      (CookieStore.run events).latest) :
    Represents ResponseCookie.ident (run (events ++ [e])).cookieJar
      (CookieStore.run (events ++ [e])).latest ↔
    ∀ cookies host, e = .response cookies host → (run events).enableCookie = true →
      AllFit host (run events).cookieJar cookies := by
  rw [run_concat, CookieStore.run_concat]
  cases e with
  | request req scheme host now =>
      simp only [step, CookieStore.step, enabled_run]
      refine iff_of_true ?_ nofun
      split
      · exact represents.filter _
      · exact represents
  | response cookies host =>
      simp only [step, CookieStore.step, enabled_run]
      by_cases enabled : (run events).enableCookie = true
      · rw [if_pos enabled, if_pos enabled]
        refine (represents_foldl_iff represents (nodup_run events) cookies).trans ?_
        constructor
        · intro fit cookies' host' same _
          cases same
          exact fit
        · intro fit
          exact fit cookies host rfl enabled
      · rw [if_neg enabled, if_neg enabled]
        exact iff_of_true represents fun _ _ _ on => absurd on enabled
  | enableCookie => exact iff_of_true represents nofun
  | disableCookie => exact iff_of_true .nil nofun
  | clearCookie => exact iff_of_true .nil nofun

theorem lastWriter_concat_iff {events : List ClientEvent} {e : ClientEvent} :
    LastWriter (events ++ [e]) ↔ LastWriter events ∧
      Represents ResponseCookie.ident (run (events ++ [e])).cookieJar
        (CookieStore.run (events ++ [e])).latest := by
  constructor
  · intro right
    exact ⟨fun before earlier => right before (earlier.trans (List.prefix_append _ _)),
      right _ List.prefix_rfl⟩
  · intro right before earlier
    rcases List.prefix_concat_iff.mp earlier with rfl | earlier
    · exact right.2
    · exact right.1 before earlier

theorem keysApart_concat_iff {events : List ClientEvent} {e : ClientEvent} :
    KeysApart (events ++ [e]) ↔ KeysApart events ∧
      ∀ cookies host, e = .response cookies host → (run events).enableCookie = true →
        AllFit host (run events).cookieJar cookies := by
  constructor
  · intro apart
    refine ⟨fun before cookies host earlier => ?_, fun cookies host same => ?_⟩
    · exact apart before cookies host (earlier.trans (List.prefix_append _ _))
    · exact apart events cookies host (same ▸ List.prefix_rfl)
  · intro apart before cookies host earlier
    rcases List.prefix_concat_iff.mp earlier with same | earlier
    · rcases List.append_inj' same rfl with ⟨rfl, last⟩
      exact apart.2 cookies host (List.singleton_inj.mp last).symm
    · exact apart.1 before cookies host earlier

/-- **Last writer.** The jar holds the latest cookie of each identity through a
run exactly when no cookie is stored beside one of its key with another domain
or path. -/
theorem lastWriter_iff (events : List ClientEvent) : LastWriter events ↔ KeysApart events := by
  induction events using List.reverseRecOn with
  | nil =>
      refine iff_of_true ?_ ?_
      · intro before earlier
        rw [List.prefix_nil.mp earlier]
        exact .nil
      · intro before cookies host earlier
        exact absurd (List.prefix_nil.mp earlier) (by simp)
  | append_singleton events e ih =>
      rw [lastWriter_concat_iff, keysApart_concat_iff, ← ih]
      apply and_congr_right
      intro right
      exact represents_concat_iff (right events List.prefix_rfl)

/-- Two sites use one key: the second cookie takes the place of the first. -/
theorem overwritten_cookie : ¬LastWriter [.enableCookie,
    .response [{ key := str "sid", val := str "1" }] (str "one.example"),
    .response [{ key := str "sid", val := str "2" }] (str "two.example")] := by
  intro right
  have lost := right _ List.prefix_rfl (str "sid", str "one.example", str "/")
  revert lost
  decide

end Client

end Ahttpd

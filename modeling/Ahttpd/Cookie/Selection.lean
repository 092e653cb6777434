import Ahttpd.Client
import Ahttpd.Cookie.Request

/-!
# Choosing cookies for a request

`add_cookie_to_request` as the source runs it: one loop erases the expired
cookies from the jar while it goes over it, the other writes the cookies that
pass the three tests to the request one by one. `addCookieInPlace_eq` says that
this is the `addCookieToRequest` of the runs of a client, and
`addCookieInPlace_selects` what becomes of the jar and of the Cookie header.
-/

namespace Ahttpd

/-! ## The two loops -/

namespace Client

/-- The first loop of `add_cookie_to_request`, with the iterator at `iter`. -/
def eraseExpired (now : Int) (jar : List ResponseCookie) (iter : Nat) : List ResponseCookie :=
  if iter < jar.length then
    if (jar.getD iter {}).expired now then eraseExpired now (jar.eraseIdx iter) iter
    else eraseExpired now jar (iter + 1)
  else jar
termination_by jar.length - iter
decreasing_by
  · rename_i inside _
    rw [List.length_eraseIdx_of_lt inside]
    omega
  · omega

/-- The body of the second loop. -/
def putCookie (scheme host : Bytes) (req : Request) (c : ResponseCookie) : Request :=
  if !isPathMatch req.path c.path then req
  else if !isDomainMatch host c.domain then req
  else if c.secure && scheme != str "https" then req
  else req.setCookie ⟨c.key, c.val⟩

/-- `add_cookie_to_request`. -/
def addCookieInPlace (client : Client) (req : Request) (scheme host : Bytes) (now : Int) :
    Client × Request :=
  let jar := eraseExpired now client.cookieJar 0
  ({ client with cookieJar := jar }, jar.foldl (putCookie scheme host) req)

end Client

/-- The values of the Cookie headers after pairs have been written to the first
of them, or to a new one. -/
def joinPairs : List Bytes → List Bytes → List Bytes
  | values, [] => values
  | [], pair :: pairs => [(str "; ").intercalate (pair :: pairs)]
  | value :: values, pair :: pairs => (str "; ").intercalate (value :: pair :: pairs) :: values

section

variable {now : Int} {kept rest : List ResponseCookie} {scheme host : Bytes} {req : Request}

/-- The loop has passed the cookies it keeps, and looks at those behind them. -/
theorem eraseExpired_eq (now : Int) (kept rest : List ResponseCookie) :
    Client.eraseExpired now (kept ++ rest) kept.length =
      kept ++ rest.filter fun c => !c.expired now := by
  induction rest generalizing kept with
  | nil => rw [Client.eraseExpired, if_neg (by simp), List.filter_nil]
  | cons c rest ih =>
      have here : (kept ++ c :: rest).getD kept.length {} = c := by
        rw [List.getD_append_right _ _ _ _ (Nat.le_refl _), Nat.sub_self]
        rfl
      have erased : (kept ++ c :: rest).eraseIdx kept.length = kept ++ rest := by
        rw [List.eraseIdx_append_of_length_le (Nat.le_refl _), Nat.sub_self]
        rfl
      rw [Client.eraseExpired, if_pos (by simp), here, erased]
      by_cases expired : c.expired now = true
      · rw [if_pos expired, ih, List.filter_cons_of_neg (by simp [expired])]
      · have next := ih (kept ++ [c])
        rw [List.append_assoc, List.singleton_append, List.length_append,
          List.length_singleton] at next
        rw [if_neg expired, next, List.filter_cons_of_pos (by simpa using expired),
          List.append_assoc, List.singleton_append]

/-- Only the headers change. -/
theorem Request.setCookie_eq (req : Request) (c : RequestCookie) :
    req.setCookie c = { req with headers := (req.setCookie c).headers } := by
  cases had : req.getHeader (str "Cookie") with
  | none =>
      simp only [setCookie, had]
      rfl
  | some value => simp only [setCookie, had]

theorem Request.setCookie_path (req : Request) (c : RequestCookie) :
    (req.setCookie c).path = req.path := by
  rw [setCookie_eq]

theorem putCookie_eq (scheme host : Bytes) (req : Request) (c : ResponseCookie) :
    Client.putCookie scheme host req c =
      if Client.sends req.path scheme host c then req.setCookie ⟨c.key, c.val⟩ else req := by
  unfold Client.putCookie Client.sends
  split
  · rfl
  · split
    · rfl
    · split <;> rfl

theorem foldl_putCookie (scheme host : Bytes) (req : Request) (jar : List ResponseCookie) :
    jar.foldl (Client.putCookie scheme host) req =
      (jar.filter (Client.sends req.path scheme host)).foldl
        (fun req c => req.setCookie ⟨c.key, c.val⟩) req := by
  induction jar generalizing req with
  | nil => rfl
  | cons c jar ih =>
      rw [List.foldl_cons, putCookie_eq, ih]
      by_cases passes : Client.sends req.path scheme host c = true
      · rw [if_pos passes, List.filter_cons_of_pos passes, List.foldl_cons, Request.setCookie_path]
      · rw [if_neg passes, List.filter_cons_of_neg passes]

/-- The loops are the filters of `addCookieToRequest`. -/
theorem addCookieInPlace_eq (client : Client) (req : Request) (scheme host : Bytes) (now : Int) :
    client.addCookieInPlace req scheme host now =
      client.addCookieToRequest req scheme host now := by
  have erased : Client.eraseExpired now client.cookieJar 0 = (client.purge now).cookieJar :=
    eraseExpired_eq now [] client.cookieJar
  simp only [Client.addCookieInPlace, Client.addCookieToRequest, Client.cookiesFor, erased,
    foldl_putCookie]
  rfl

/-! ## The header -/

theorem joinPairs_nil (values : List Bytes) : joinPairs values [] = values := by
  cases values <;> rfl

/-- Pairs can be written one by one. -/
theorem joinPairs_cons (values : List Bytes) (pair : Bytes) (pairs : List Bytes) :
    joinPairs (joinPairs values [pair]) pairs = joinPairs values (pair :: pairs) := by
  cases values with
  | nil =>
      cases pairs with
      | nil => rfl
      | cons pair' pairs => simp only [joinPairs, List.intercalate_singleton]
  | cons value values =>
      cases pairs with
      | nil => rfl
      | cons pair' pairs =>
          simp only [joinPairs, List.intercalate_cons_cons, List.intercalate_singleton,
            List.append_assoc]

theorem getHeader_eq_head? (p : Package) (hName : Bytes) :
    p.getHeader hName = (p.getHeaders hName).head? := by
  rw [Package.getHeader, Package.getHeaders, List.head?_map, List.head?_filter]

/-- The values under a name, and the headers of other names. -/
theorem extendFirst_filter {hName text : Bytes} {headers : List Header} :
    ((Package.extendFirst hName text headers).filter fun h => strcasecmp h.name hName).map
      (·.value) = ((headers.filter fun h => strcasecmp h.name hName).map (·.value)).modifyHead
        (· ++ text) ∧
    ((Package.extendFirst hName text headers).filter fun h => !strcasecmp h.name hName) =
      headers.filter fun h => !strcasecmp h.name hName := by
  induction headers with
  | nil => exact ⟨rfl, rfl⟩
  | cons h headers ih =>
      rw [Package.extendFirst]
      by_cases named : strcasecmp h.name hName = true
      · simp [named]
      · simp [named, ih]

/-- One cookie extends the first Cookie header or adds one. -/
theorem getHeaders_setCookie (req : Request) (c : RequestCookie) :
    (req.setCookie c).getHeaders (str "Cookie") =
      joinPairs (req.getHeaders (str "Cookie")) [c.pair] := by
  have isHead := getHeader_eq_head? req.toPackage (str "Cookie")
  cases had : req.getHeaders (str "Cookie") with
  | nil =>
      rw [had] at isHead
      simp only [Request.setCookie, isHead, List.head?_nil]
      unfold Package.getHeaders at had ⊢
      simp only [Request.withPackage_toPackage, Package.addHeader_headers, List.filter_append,
        List.map_append, had, List.nil_append]
      simp only [List.filter_cons, strcasecmp_self, if_true, List.filter_nil, List.map_cons,
        List.map_nil, joinPairs, List.intercalate_singleton]
      rfl
  | cons value values =>
      rw [had] at isHead
      simp only [Request.setCookie, isHead, List.head?_cons]
      unfold Package.getHeaders at had ⊢
      rw [extendFirst_filter.1, had, List.modifyHead_cons]
      change (value ++ (str "; " ++ c.pair)) :: values = _
      simp only [joinPairs, List.intercalate_cons_cons, List.intercalate_singleton,
        List.append_assoc]

/-- Headers of other names stay. -/
theorem otherHeaders_setCookie (req : Request) (c : RequestCookie) :
    ((req.setCookie c).headers.filter fun h => !strcasecmp h.name (str "Cookie")) =
      req.headers.filter fun h => !strcasecmp h.name (str "Cookie") := by
  cases had : req.getHeader (str "Cookie") with
  | none =>
      simp only [Request.setCookie, had, Request.withPackage_toPackage, Package.addHeader_headers,
        List.filter_append, List.filter_cons, strcasecmp_self]
      exact List.append_nil _
  | some value =>
      simp only [Request.setCookie, had]
      exact extendFirst_filter.2

/-- The request with pairs in its Cookie header. -/
structure Carries (req : Request) (pairs : List Bytes) (req' : Request) : Prop where
  cookie : req'.getHeaders (str "Cookie") = joinPairs (req.getHeaders (str "Cookie")) pairs
  other : (req'.headers.filter fun h => !strcasecmp h.name (str "Cookie")) =
    req.headers.filter fun h => !strcasecmp h.name (str "Cookie")
  rest : req' = { req with headers := req'.headers }

theorem carries_foldl (req : Request) (cookies : List RequestCookie) :
    Carries req (cookies.map (·.pair)) (cookies.foldl Request.setCookie req) := by
  induction cookies generalizing req with
  | nil => exact ⟨(joinPairs_nil _).symm, rfl, rfl⟩
  | cons c cookies ih =>
      have later := ih (req.setCookie c)
      constructor
      · rw [List.foldl_cons, List.map_cons, later.cookie, getHeaders_setCookie, joinPairs_cons]
      · rw [List.foldl_cons, later.other, otherHeaders_setCookie]
      · rw [List.foldl_cons, later.rest, Request.setCookie_eq]

/-- The cookies that have not expired. -/
def Client.fresh (client : Client) (now : Int) : List ResponseCookie :=
  client.cookieJar.filter fun c => c.expires = 0 ∨ now ≤ c.expires

/-- Those of them that go with a request. -/
def Client.selected (client : Client) (path scheme host : Bytes) (now : Int) :
    List ResponseCookie :=
  (client.fresh now).filter fun c =>
    isPathMatch path c.path && isDomainMatch host c.domain && (!c.secure || scheme = str "https")

theorem Client.purge_cookieJar (client : Client) (now : Int) :
    (client.purge now).cookieJar = client.fresh now := by
  apply List.filter_congr
  intro c _
  rw [Bool.eq_iff_iff]
  simp only [ResponseCookie.expired, Bool.not_eq_true', Bool.and_eq_false_iff,
    decide_eq_false_iff_not, decide_eq_true_eq, not_not, not_lt]

theorem Client.cookiesFor_eq (client : Client) (path scheme host : Bytes) (now : Int) :
    client.cookiesFor path scheme host now = client.selected path scheme host now := by
  unfold cookiesFor selected
  rw [purge_cookieJar]
  apply List.filter_congr
  intro c _
  unfold sends
  cases isPathMatch path c.path <;> cases isDomainMatch host c.domain <;> cases c.secure <;>
    by_cases https : scheme = str "https" <;> simp [https]

/-- **Cookie selection.** The jar keeps the cookies that have not expired, the
Cookie header gets the pairs of those that pass the tests, and none of these is
secure when the scheme is not https. -/
theorem addCookieInPlace_selects (client : Client) (req : Request) (scheme host : Bytes)
    (now : Int) :
    (client.addCookieInPlace req scheme host now).1 =
        { client with cookieJar := client.fresh now } ∧
      Carries req ((client.selected req.path scheme host now).map fun c =>
        RequestCookie.pair ⟨c.key, c.val⟩) (client.addCookieInPlace req scheme host now).2 ∧
      (scheme ≠ str "https" →
        ∀ c ∈ client.selected req.path scheme host now, c.secure = false) := by
  rw [addCookieInPlace_eq]
  refine ⟨?_, ?_, ?_⟩
  · rw [← Client.purge_cookieJar]
    rfl
  · have carries := carries_foldl req ((client.selected req.path scheme host now).map fun c =>
      (⟨c.key, c.val⟩ : RequestCookie))
    rw [List.map_map, List.foldl_map, ← Client.cookiesFor_eq] at carries
    rw [← Client.cookiesFor_eq]
    exact carries
  · intro plain c member
    have passes : (isPathMatch req.path c.path = true ∧ isDomainMatch host c.domain = true) ∧
        c.secure = false := by simpa [plain] using (List.mem_filter.mp member).2
    exact passes.2

end

end Ahttpd

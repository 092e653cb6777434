import Ahttpd.Base64
import Ahttpd.Cookie.Selection
import Ahttpd.UrlSplit

/-!
# Requests for URLs

What `Client::request` makes of a URL: where it connects to, and the request it
sends there. What stands in front of the first `@` is taken for the user
information, wherever that `@` is, as long as something that could be a host
follows. So a URL without user information goes to a wrong host when there is
such an `@` in its path or query, and every other URL is understood
(`requested_iff`).
-/

namespace Ahttpd

open Basis

/-! ## The second half of `Client::request` -/

def Request.basicAuth (req : Request) (auth : Bytes) : Request :=
  req.withPackage
    (req.toPackage.setHeader (str "Authorization") (str "Basic " ++ Base64.encode auth))

/-- The path and the query that the request is given. -/
def Request.setTarget (req : Request) (path : Bytes) : Request :=
  match path.findIdx? (· == byte '?') with
  | none => req.setPath path
  | some pos => (req.setPath (path.take pos)).setQueryString (path.drop (pos + 1))

namespace Client

/-- The request that `req_handler` gets once the client is connected. -/
def newRequest (client : Client) (method : Bytes) (target : Target) (now : Int) : Request :=
  let req : Request := {}
  let req := (req.setMethod method).setTarget target.path
  let req := req.setVersion (str "HTTP/1.1")
  let req :=
    if client.enableCookie then (client.addCookieInPlace req target.scheme target.host now).2
    else req
  if target.auth ≠ [] then req.basicAuth target.auth else req

/-- What is sent, after `req_handler`. -/
def finishRequest (target : Target) (req : Request) : Request :=
  let req :=
    match req.getHeader (str "Host") with
    | some _ => req
    | none => req.withPackage
        (req.toPackage.addHeader (str "Host") (target.host ++ str ":" ++ target.port))
  req.withPackage (req.toPackage.setHeader (str "Connection") (str "close"))

end Client

/-! ## URLs -/

/-- No character of the one is in the other. -/
def FreeOf (chars : String) (s : Bytes) : Prop := ∀ c ∈ str chars, c ∉ s

instance (chars : String) (s : Bytes) : Decidable (FreeOf chars s) :=
  decidable_of_iff ((str chars).all (!s.contains ·) = true) (by simp [FreeOf])

theorem FreeOf.ne {chars : String} {s : Bytes} {c d : Byte} (free : FreeOf chars s)
    (member : c ∈ s) (excluded : d ∈ str chars) : c ≠ d := by
  rintro rfl
  exact free c excluded member

/-- `[scheme://][user:pass@]host[:port][path][?query]`. -/
structure UrlParts where
  scheme : Option Bytes := none
  userInfo : Option Bytes := none
  host : Bytes
  port : Option Bytes := none
  path : Option Bytes := none
  query : Option Bytes := none

namespace UrlParts

def hostPort (u : UrlParts) : Bytes := u.host ++ (u.port.map (byte ':' :: ·)).getD []

/-- The path and the query. -/
def tail (u : UrlParts) : Bytes := u.path.getD [] ++ (u.query.map (byte '?' :: ·)).getD []

/-- All behind the scheme. -/
def body (u : UrlParts) : Bytes :=
  (u.userInfo.map (· ++ str "@")).getD [] ++ (u.hostPort ++ u.tail)

def text (u : UrlParts) : Bytes := (u.scheme.map (· ++ str "://")).getD [] ++ u.body

/-- There is no user information, and what follows the first `@` of the path and
the query could be a host. -/
def StrayAt (u : UrlParts) : Prop :=
  u.userInfo = none ∧ ∃ before c after, u.tail = before ++ byte '@' :: c :: after ∧
    byte '@' ∉ before ∧ c ≠ byte '/' ∧ c ≠ byte '?'

end UrlParts

/-- The URLs that a client is to understand. -/
structure Url extends UrlParts where
  isScheme : ∀ s ∈ scheme, IsScheme s
  isUserInfo : ∀ auth ∈ userInfo, auth ≠ [] ∧ FreeOf "@/?" auth
  isHost : host ≠ [] ∧ FreeOf "@/?:" host
  isPort : ∀ p ∈ port, p ≠ [] ∧ p.all isDigit = true
  isPath : ∀ p ∈ path, str "/" <+: p ∧ FreeOf "?" p
  oneLine : FreeOf "\n\r" toUrlParts.text

namespace Url

variable {u : Url} {c : Byte}

theorem anyChar_of_mem (member : c ∈ u.body) : anyChar c = true := by
  have inText : c ∈ u.text := List.mem_append_right _ member
  have notLF : c ≠ LF := u.oneLine.ne inText (by decide)
  have notCR : c ≠ CR := u.oneLine.ne inText (by decide)
  simp [anyChar, notLF, notCR]

theorem freeOf_hostPort : FreeOf "@/?" u.hostPort := by
  intro c excluded member
  have noDigit : (str "@/?:").all (!isDigit ·) = true := rfl
  have excluded' : c ∈ str "@/?:" := List.mem_append_left (str ":") excluded
  rcases List.mem_append.mp member with inHost | inPort
  · exact u.isHost.2 c excluded' inHost
  · cases given : u.port with
    | none =>
        rw [given] at inPort
        cases inPort
    | some p =>
        rw [given] at inPort
        rcases List.mem_cons.mp inPort with rfl | inPort
        · exact absurd excluded (by decide)
        · have other := List.all_eq_true.mp noDigit c excluded'
          exact not_mem_of_all (u.isPort p given).2 ((Bool.not_eq_true' _).mp other) inPort

/-- A host and a port do not end with a colon. -/
theorem exists_last_hostPort : ∃ init c, u.hostPort = init ++ [c] ∧ c ≠ byte ':' := by
  cases given : u.port with
  | none =>
      rcases List.eq_nil_or_concat u.host with empty | ⟨init, c, split⟩
      · exact absurd empty u.isHost.1
      · refine ⟨init, c, ?_, ?_⟩
        · rw [UrlParts.hostPort, given, split]
          simp
        · rintro rfl
          exact u.isHost.2 (byte ':') (by decide) (by simp [split])
  | some p =>
      rcases List.eq_nil_or_concat p with empty | ⟨init, c, split⟩
      · exact absurd empty (u.isPort p given).1
      · refine ⟨u.host ++ byte ':' :: init, c, ?_, ?_⟩
        · rw [UrlParts.hostPort, given, split]
          simp
        · rintro rfl
          exact not_mem_of_all (c := byte ':') (u.isPort p given).2 rfl (by simp [split])

/-- The path and the query begin with `/` or `?`. -/
theorem head_tail (isHead : c ∈ u.tail.head?) : c = byte '/' ∨ c = byte '?' := by
  cases given : u.path with
  | some p =>
      obtain ⟨rest, rfl⟩ := (u.isPath p given).1
      rw [UrlParts.tail, given] at isHead
      left
      exact (Option.some_inj.mp isHead).symm
  | none =>
      cases given' : u.query with
      | none =>
          rw [UrlParts.tail, given, given'] at isHead
          cases isHead
      | some q =>
          rw [UrlParts.tail, given, given'] at isHead
          right
          exact (Option.some_inj.mp isHead).symm

theorem hostChar_hostPort (member : c ∈ u.hostPort) : hostChar c = true := by
  have inBody : c ∈ u.body := List.mem_append_right _ (List.mem_append_left _ member)
  exact hostChar_iff.mpr ⟨anyChar_of_mem inBody, freeOf_hostPort.ne member (by decide),
    freeOf_hostPort.ne member (by decide)⟩

theorem hostChar_head_tail (isHead : c ∈ u.tail.head?) : hostChar c = false := by
  rcases head_tail isHead with rfl | rfl <;> rfl

theorem userChar_of_mem (member : c ∈ u.body) (notAt : c ≠ byte '@') : userChar c = true :=
  userChar_iff.mpr ⟨anyChar_of_mem member, notAt⟩

/-- The user information, the host and the port. -/
def front (u : Url) : Bytes := (u.userInfo.map (· ++ str "@")).getD [] ++ u.hostPort

theorem freeOf_front : FreeOf "/?" u.front := by
  intro c excluded member
  rcases List.mem_append.mp member with inUser | inHost
  · cases given : u.userInfo with
    | none =>
        rw [given] at inUser
        cases inUser
    | some auth =>
        rw [given] at inUser
        rcases List.mem_append.mp inUser with inAuth | isAt
        · exact (u.isUserInfo auth given).2 c (List.mem_cons_of_mem _ excluded) inAuth
        · obtain rfl := List.mem_singleton.mp isAt
          exact absurd excluded (by decide)
  · exact freeOf_hostPort c (List.mem_cons_of_mem _ excluded) inHost

/-- The path begins at the first `/` or `?`. -/
theorem takeWhile_body : (u.body.map toLower).takeWhile (fun d => d != byte '/' && d != byte '?') =
    u.front.map toLower := by
  have split : u.body = u.front ++ u.tail := (List.append_assoc _ _ _).symm
  have stops : (u.tail.map toLower).takeWhile (fun d => d != byte '/' && d != byte '?') = [] := by
    cases found : u.tail with
    | nil => rfl
    | cons d rest =>
        have isHead : d ∈ u.tail.head? := by rw [found]; rfl
        rcases head_tail isHead with rfl | rfl <;> rfl
  rw [split, List.map_append, List.takeWhile_append_of_pos, stops, List.append_nil]
  intro d member
  obtain ⟨d, isFront, rfl⟩ := List.mem_map.mp member
  rw [Bool.and_eq_true, bne_iff_ne, bne_iff_ne]
  exact ⟨mt (toLower_eq_iff (by decide)).mp (freeOf_front.ne isFront (by decide)),
    mt (toLower_eq_iff (by decide)).mp (freeOf_front.ne isFront (by decide))⟩

/-- What stands in front of the path does not end with a colon. -/
theorem not_beginsWithScheme_body : ¬BeginsWithScheme u.body := by
  have ends (text : Bytes) (same : text = u.front.map toLower) :
      text.getLast? ≠ some (byte ':') := by
    obtain ⟨init, c, isLast, notColon⟩ := exists_last_hostPort (u := u)
    rw [same, front, isLast, ← List.append_assoc, List.map_append, List.map_singleton,
      List.getLast?_concat]
    intro colon
    exact notColon ((toLower_eq_iff (by decide)).mp (Option.some_inj.mp colon))
  have upTo := takeWhile_body (u := u)
  rintro (⟨rest, split⟩ | ⟨rest, split⟩)
  · rw [← split] at upTo
    exact ends (str "http:") upTo rfl
  · rw [← split] at upTo
    exact ends (str "https:") upTo rfl

theorem hostPort_ne_nil : u.hostPort ≠ [] :=
  List.append_ne_nil_of_left_ne_nil u.isHost.1 _

theorem anyChar_tail : ∀ c ∈ u.tail, anyChar c = true := fun _ member =>
  anyChar_of_mem (List.mem_append_right _ (List.mem_append_right _ member))

theorem head?_hostPart_hostPort (captures : Regex.Captures Byte) :
    (hostPart.run (u.hostPort ++ u.tail) captures).head? =
      some ([], (if u.tail = [] then [] else [(9, u.tail)]) ++ (7, u.hostPort) :: captures) :=
  head?_hostPart hostPort_ne_nil (fun _ => hostChar_hostPort) (fun _ => hostChar_head_tail)
    anyChar_tail captures

theorem body_of_none (absent : u.userInfo = none) : u.body = u.hostPort ++ u.tail := by
  rw [UrlParts.body, absent]
  rfl

section Absent

variable {before rest : Bytes} {captures : Regex.Captures Byte}

/-- Everything in front of the first `@` is taken for the user information. -/
theorem run_userPart_body (absent : u.userInfo = none)
    (split : u.tail = before ++ byte '@' :: rest) (isFirst : byte '@' ∉ before) :
    (Regex.seq userPart hostPart).run u.body captures =
      hostPart.run rest ((5, u.hostPort ++ before) :: captures) := by
  have body : u.body = (u.hostPort ++ before) ++ byte '@' :: rest := by
    rw [body_of_none absent, split, List.append_assoc]
  rw [body, run_userPart_seq_at]
  intro c member
  apply userChar_of_mem (u := u) (body ▸ List.mem_append_left _ member)
  rintro rfl
  rcases List.mem_append.mp member with inHost | inTail
  · exact freeOf_hostPort (byte '@') (by decide) inHost
  · exact isFirst inTail

/-- Without a host behind it nothing is. -/
theorem run_userPart_eq_nil (absent : u.userInfo = none) (clear : ¬u.StrayAt) :
    (Regex.seq userPart hostPart).run u.body captures = [] := by
  by_cases member : byte '@' ∈ u.tail
  · obtain ⟨before, rest, split, isFirst⟩ := List.eq_append_cons_of_mem member
    rw [run_userPart_body absent split isFirst]
    apply Regex.run_plus_stop
    intro c isHead
    by_contra isHost
    rcases hostChar_iff.mp (Bool.not_eq_false _ ▸ isHost) with ⟨-, notSlash, notQuestion⟩
    obtain ⟨after, rfl⟩ := List.head?_eq_some_iff.mp isHead
    exact clear ⟨absent, before, c, after, split, isFirst, notSlash, notQuestion⟩
  · apply run_userPart_seq_eq_nil
    intro c inBody
    apply userChar_of_mem inBody
    rintro rfl
    rw [body_of_none absent] at inBody
    rcases List.mem_append.mp inBody with inHost | inTail
    · exact freeOf_hostPort (byte '@') (by decide) inHost
    · exact member inTail

end Absent

theorem head?_text (clear : ¬u.StrayAt) : (urlParts.run u.text []).head? =
    some ([], captured u.scheme u.userInfo u.hostPort u.tail) := by
  apply head?_urlParts u.isScheme fun _ => not_beginsWithScheme_body
  rw [Regex.run_opt_seq]
  cases given : u.userInfo with
  | none =>
      rw [run_userPart_eq_nil given clear, List.nil_append, body_of_none given,
        head?_hostPart_hostPort]
      rfl
  | some auth =>
      have split : u.body = auth ++ byte '@' :: (u.hostPort ++ u.tail) := by
        rw [UrlParts.body, given]
        exact List.append_assoc auth (str "@") _
      have inAuth : ∀ c ∈ auth, userChar c = true := by
        intro c member
        apply userChar_of_mem (u := u) (split ▸ List.mem_append_left _ member)
        rintro rfl
        exact (u.isUserInfo auth given).2 (byte '@') (by decide) member
      rw [split, run_userPart_seq_at inAuth, List.head?_append, head?_hostPart_hostPort]
      rfl

/-- The text up to the first `@` becomes the user information. -/
theorem head?_text_of_strayAt (stray : u.StrayAt) : ∃ wrong hostPort tail, wrong ≠ [] ∧
    (urlParts.run u.text []).head? = some ([], captured u.scheme (some wrong) hostPort tail) := by
  obtain ⟨absent, before, c, after, split, isFirst, notSlash, notQuestion⟩ := stray
  have inBody : ∀ d ∈ c :: after, d ∈ u.body := by
    intro d member
    rw [body_of_none absent, split]
    exact List.mem_append_right _ (List.mem_append_right _ (List.mem_cons_of_mem _ member))
  have isHost : hostChar c = true :=
    hostChar_iff.mpr ⟨anyChar_of_mem (inBody c List.mem_cons_self), notSlash, notQuestion⟩
  let wrong := u.hostPort ++ before
  let hostPort := (c :: after).takeWhile hostChar
  let tail := (c :: after).dropWhile hostChar
  have filled : hostPort ≠ [] := by simp [hostPort, isHost]
  have starts : ∀ d ∈ tail.head?, hostChar d = false := by
    intro d isHead
    have stop := List.head?_dropWhile_not hostChar (c :: after)
    rwa [show ((c :: after).dropWhile hostChar).head? = some d from isHead] at stop
  have dots : ∀ d ∈ tail, anyChar d = true := fun d member =>
    anyChar_of_mem (inBody d ((List.dropWhile_sublist _).subset member))
  have taken := head?_hostPart filled (fun d => List.mem_takeWhile_imp) starts dots
    ((5, wrong) :: (u.scheme.map (3, ·)).toList)
  rw [List.takeWhile_append_dropWhile] at taken
  refine ⟨wrong, hostPort, tail, List.append_ne_nil_of_left_ne_nil hostPort_ne_nil _, ?_⟩
  apply head?_urlParts u.isScheme fun _ => not_beginsWithScheme_body
  rw [Regex.run_opt_seq, List.head?_append, run_userPart_body absent split isFirst, taken]
  rfl

end Url

/-! ## The request -/

namespace Package

variable {p p' : Package} {hName other hValue : Bytes}

theorem strcasecmp_congr {name : Bytes} (same : strcasecmp name hName = true) (other : Bytes) :
    strcasecmp name other = strcasecmp hName other := by
  unfold strcasecmp at same ⊢
  rw [beq_iff_eq.mp same]

/-- Two packages that differ in the headers of one name. -/
theorem getHeaders_congr (differ : strcasecmp hName other = false)
    (same : (p.headers.filter fun h => !strcasecmp h.name other) =
      p'.headers.filter fun h => !strcasecmp h.name other) :
    p.getHeaders hName = p'.getHeaders hName := by
  have narrow (q : Package) : q.getHeaders hName =
      ((q.headers.filter fun h => !strcasecmp h.name other).filter fun h =>
        strcasecmp h.name hName).map (·.value) := by
    rw [getHeaders, List.filter_filter]
    congr 1
    apply List.filter_congr
    intro h _
    cases named : strcasecmp h.name hName with
    | false => rfl
    | true => rw [strcasecmp_congr named, differ]; rfl
  rw [narrow, narrow, same]

theorem getHeaders_addHeader_of_ne (differ : strcasecmp hName other = false) :
    (p.addHeader other hValue).getHeaders hName = p.getHeaders hName := by
  apply getHeaders_congr differ
  rw [addHeader_headers, List.filter_append, List.filter_cons, strcasecmp_self]
  exact List.append_nil _

theorem getHeaders_setHeader_of_ne (differ : strcasecmp hName other = false) :
    (p.setHeader other hValue).getHeaders hName = p.getHeaders hName := by
  rw [setHeader, getHeaders_addHeader_of_ne differ]
  apply getHeaders_congr differ
  rw [delHeader, List.filter_filter]
  simp only [Bool.and_self]

theorem getHeaders_setHeader : (p.setHeader hName hValue).getHeaders hName = [hValue] := by
  rw [setHeader, getHeaders, addHeader_headers, delHeader, List.filter_append, List.filter_filter]
  simp [strcasecmp_self]

end Package

/-- The target is taken apart at the first `?`. -/
theorem Request.setTarget_eq (req : Request) {path : Bytes} (clean : byte '?' ∉ path)
    (query : Option Bytes) : req.setTarget (path ++ (query.map (byte '?' :: ·)).getD []) =
      { req with path, query := query.getD req.query } := by
  have noQuery : path.findIdx? (· == byte '?') = none := by
    rw [List.findIdx?_eq_none_iff]
    intro c member
    exact beq_eq_false_iff_ne.mpr fun same => clean (same ▸ member)
  cases query with
  | none =>
      rw [Option.map_none, Option.getD_none, List.append_nil, setTarget, noQuery]
      rfl
  | some q =>
      have found : (path ++ byte '?' :: q).findIdx? (· == byte '?') = some path.length := by
        rw [List.findIdx?_append, noQuery, List.findIdx?_cons]
        simp
      have behind : (path ++ byte '?' :: q).drop (path.length + 1) = q := by
        rw [← List.drop_drop, List.drop_left' rfl]
        rfl
      rw [Option.map_some, Option.getD_some, setTarget, found]
      simp only [setPath, setQueryString, List.take_left' rfl, behind, Option.getD_some]

namespace Client

theorem finishRequest_eq (target : Target) (req : Request) : finishRequest target req =
    { req with headers := (finishRequest target req).headers } := by
  unfold finishRequest
  split <;> rfl

/-- The headers that are added last are no credentials. -/
theorem getHeaders_finishRequest (target : Target) (req : Request) :
    (finishRequest target req).getHeaders (str "Authorization") =
      req.getHeaders (str "Authorization") := by
  have notHost : strcasecmp (str "Authorization") (str "Host") = false := by decide
  have notConnection : strcasecmp (str "Authorization") (str "Connection") = false := by decide
  rw [finishRequest, Request.withPackage_toPackage,
    Package.getHeaders_setHeader_of_ne notConnection]
  split
  · rfl
  · rw [Request.withPackage_toPackage, Package.getHeaders_addHeader_of_ne notHost]

section Sent

variable (client : Client) (method : Bytes) (target : Target) (now : Int)

/-- The request line. -/
def startRequest : Request :=
  ((({} : Request).setMethod method).setTarget target.path).setVersion (str "HTTP/1.1")

/-- What a request is sent as when `req_handler` does nothing. -/
def sentRequest : Request := finishRequest target (client.newRequest method target now)

/-- The cookies, if they are enabled, change nothing but Cookie headers. -/
theorem exists_newRequest : ∃ pairs req, Carries (startRequest method target) pairs req ∧
    client.newRequest method target now =
      if target.auth = [] then req else req.basicAuth target.auth := by
  by_cases enabled : client.enableCookie = true
  · refine ⟨_, _, carries_foldl (startRequest method target)
      ((client.cookiesFor (startRequest method target).path target.scheme target.host now).map
        fun c => (⟨c.key, c.val⟩ : RequestCookie)), ?_⟩
    simp only [newRequest, enabled, if_true, addCookieInPlace_eq, addCookieToRequest, ite_not,
      List.foldl_map]
    rfl
  · refine ⟨[], startRequest method target, carries_foldl _ [], ?_⟩
    simp only [newRequest, enabled, ite_not]
    rfl

/-- What comes before the headers is that of the target. -/
theorem sentRequest_eq : client.sentRequest method target now =
    { startRequest method target with
      headers := (client.sentRequest method target now).headers } := by
  obtain ⟨pairs, req, carries, isNew⟩ := exists_newRequest client method target now
  rw [sentRequest, isNew, finishRequest_eq]
  split
  · rw [carries.rest]
  · rw [Request.basicAuth, carries.rest]
    rfl

theorem getHeaders_sentRequest : (client.sentRequest method target now).getHeaders
    (str "Authorization") =
      if target.auth = [] then [] else [str "Basic " ++ Base64.encode target.auth] := by
  obtain ⟨pairs, req, carries, isNew⟩ := exists_newRequest client method target now
  rw [sentRequest, isNew, getHeaders_finishRequest]
  split
  · have notCookie : strcasecmp (str "Authorization") (str "Cookie") = false := by decide
    rw [Package.getHeaders_congr notCookie carries.other]
    unfold startRequest Request.setTarget
    split <;> rfl
  · exact Package.getHeaders_setHeader

end Sent

end Client

/-- The client goes to the host and the port of the URL and sends its user
information, path and query. -/
structure UrlParts.SentAsGiven (u : UrlParts) (client : Client) (method : Bytes) (now : Int)
    (target : Target) : Prop where
  host : target.host = u.host
  port : target.port = u.port.getD (defaultPort u.scheme)
  credentials : (client.sentRequest method target now).getHeaders (str "Authorization") =
    (u.userInfo.map fun auth => str "Basic " ++ Base64.encode auth).toList
  path : (client.sentRequest method target now).path = u.path.getD (str "/")
  query : (client.sentRequest method target now).query = u.query.getD []

/-- `Client::request` understands the URL. -/
def UrlParts.Requested (u : UrlParts) (client : Client) (method : Bytes) (now : Int) : Prop :=
  ∃ target, splitUrl u.text = some target ∧ u.SentAsGiven client method now target

namespace Url

variable {u : Url} {client : Client} {method : Bytes} {now : Int}

theorem nameChar_host {c : Byte} (member : c ∈ u.host) : nameChar c = true := by
  have inBody : c ∈ u.body :=
    List.mem_append_right _ (List.mem_append_left _ (List.mem_append_left _ member))
  exact nameChar_iff.mpr ⟨anyChar_of_mem inBody, u.isHost.2.ne member (by decide)⟩

/-- A slash stands for a path that is not given. -/
theorem path_tail : (if charAt u.tail 0 = byte '/' then u.tail else str "/" ++ u.tail) =
    u.path.getD (str "/") ++ (u.query.map (byte '?' :: ·)).getD [] := by
  cases given : u.path with
  | some p =>
      obtain ⟨rest, rfl⟩ := (u.isPath p given).1
      rw [UrlParts.tail, given]
      exact if_pos rfl
  | none =>
      rw [UrlParts.tail, given]
      cases u.query with
      | none => rfl
      | some q => exact if_neg (by decide : byte '?' ≠ byte '/')

theorem splitUrl_text (clear : ¬u.StrayAt) : splitUrl u.text = some
    { scheme := schemeOf u.scheme
      auth := u.userInfo.getD []
      host := u.host
      port := u.port.getD (defaultPort u.scheme)
      path := u.path.getD (str "/") ++ (u.query.map (byte '?' :: ·)).getD [] } := by
  rw [splitUrl_eq _ _ _ _ (head?_text clear), path_tail, UrlParts.hostPort,
    splitHostPort_eq (fun _ => nameChar_host) u.isPort]

theorem requested_of_not_strayAt (clear : ¬u.StrayAt) : u.Requested client method now := by
  have noQuery : byte '?' ∉ u.path.getD (str "/") := by
    cases given : u.path with
    | none => decide
    | some p => exact (u.isPath p given).2 _ (by decide)
  refine ⟨_, splitUrl_text clear, rfl, rfl, ?_, ?_, ?_⟩
  · rw [Client.getHeaders_sentRequest]
    cases given : u.userInfo with
    | none => rfl
    | some auth => exact if_neg (u.isUserInfo auth given).1
  · rw [Client.sentRequest_eq, Client.startRequest, Request.setTarget_eq _ noQuery]
    rfl
  · rw [Client.sentRequest_eq, Client.startRequest, Request.setTarget_eq _ noQuery]
    rfl

theorem not_requested_of_strayAt (stray : u.StrayAt) : ¬u.Requested client method now := by
  rintro ⟨target, isTarget, asGiven⟩
  obtain ⟨wrong, hostPort, tail, nonempty, first⟩ := head?_text_of_strayAt stray
  rw [splitUrl_eq _ _ _ _ first] at isTarget
  obtain rfl := Option.some_inj.mp isTarget
  have credentials := asGiven.credentials
  rw [Client.getHeaders_sentRequest, stray.1] at credentials
  simp [nonempty] at credentials

/-- **URL splitting.** A URL goes to its host, with its credentials, path and
query, exactly when it has user information or no `@` behind it with something
that could be a host. -/
theorem requested_iff (u : Url) (client : Client) (method : Bytes) (now : Int) :
    u.Requested client method now ↔ ¬u.StrayAt :=
  ⟨fun requested stray => not_requested_of_strayAt stray requested, requested_of_not_strayAt⟩

/-- The client goes to `b`, with the credentials `h/a`. -/
def strayUrl : Url where
  scheme := some (str "http")
  host := str "h"
  path := some (str "/a@b")
  isScheme := by
    intro s isScheme
    obtain rfl := Option.some_inj.mp isScheme
    exact .inl rfl
  isUserInfo := by rintro _ ⟨⟩
  isHost := ⟨List.cons_ne_nil _ _, by decide⟩
  isPort := by rintro _ ⟨⟩
  isPath := by
    intro p isPath
    obtain rfl := Option.some_inj.mp isPath
    exact ⟨List.prefix_append (str "/") (str "a@b"), by decide⟩
  oneLine := by decide

theorem requested_fails : ¬strayUrl.Requested {} (str "GET") 0 :=
  not_requested_of_strayAt ⟨rfl, str "/a", byte 'b', [], rfl, by decide, by decide, by decide⟩

end Url

end Ahttpd

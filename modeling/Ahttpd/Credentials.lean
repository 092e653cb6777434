import Ahttpd.Base64Decode
import Ahttpd.ClientRequest

/-!
# Credentials

The client sends the user information of its URL encoded in a header
(`Request::basicAuth`), and the server looks for it there
(`Request::basicAuthInfo`). Whatever is written in front of the `@` of a URL,
the server decodes exactly that, as long as the user leaves the header alone
(`url_arrives`).
-/

namespace Ahttpd

open Basis

/-- `[Bb]asic ([[:print:]]*)` -/
def basicAuthReg : Regex Byte :=
  .seq (.cls fun c => c == byte 'B' || c == byte 'b')
    (.seq (.word ((str "asic ").map fun d c => c == d)) (.group 1 (.star (.cls isPrint))))

/-- `auth_info`. -/
def authInfo (auth : Bytes) : Checked Bytes :=
  match basicAuthReg.search auth with
  | some results => Base64.decode (results.str 1)
  | none => .ok []

namespace Request

def basicAuthInfo (req : Request) : Checked Bytes :=
  match req.getHeader (str "Authorization") with
  | none => .ok []
  | some auth => authInfo auth

end Request

section

variable {s : Bytes}

theorem printable_encode (s : Bytes) : Printable (Base64.encode s) := by
  have alphabet : ∀ {n : Nat}, n < 64 → isPrint (Base64.alphabet n) = true := by decide
  obtain ⟨pad, isEncoding⟩ := Base64.exists_encode_eq s
  rw [isEncoding]
  apply Printable.append
  · intro c member
    rcases List.mem_map.mp member with ⟨n, inSextets, rfl⟩
    have lt : n < 2 ^ 6 := lt_of_mem_digitsOf inSextets
    exact alphabet lt
  · intro c member
    rw [List.eq_of_mem_replicate member]
    decide

/-- The expression takes the text behind the scheme whole. -/
theorem search_basicAuthReg (printable : Printable s) :
    ∃ results, basicAuthReg.search (str "Basic " ++ s) = some results ∧ results.str 1 = s := by
  have word : (Regex.word ((str "asic ").map fun d c => c == d)).run (str "asic " ++ s) [] =
      [(s, [])] := Regex.run_word (by simp [str]) s []
  have group : ((Regex.group 1 (.star (.cls isPrint))).run (s ++ []) []).head? =
      some ([], [(1, s)]) := Regex.head?_group_star printable (by simp)
  rw [List.append_nil] at group
  have split : str "Basic " ++ s = byte 'B' :: (str "asic " ++ s) := rfl
  have first : (basicAuthReg.run (str "Basic " ++ s) []).head? = some ([], [(1, s)]) := by
    rw [split, basicAuthReg, Regex.run_seq, Regex.run_cls_of_pos (by decide),
      List.flatMap_singleton, Regex.run_seq, word, List.flatMap_singleton]
    exact group
  exact ⟨_, Regex.search_of_head? first, rfl⟩

theorem authInfo_basic (few : (8 * s.length + 5) / 6 ≤ Base64.intMax) :
    authInfo (str "Basic " ++ Base64.encode s) = .ok s := by
  obtain ⟨results, found, isText⟩ := search_basicAuthReg (printable_encode s)
  rw [authInfo, found]
  dsimp only
  rw [isText, Base64.decode_encode few]

end

/-! ## From the URL to the server -/

section

variable {client : Client} {method : Bytes} {target : Target} {around : Surroundings} {u : Url}
  {hName s : Bytes} {server : Net}

/-- A new request has a Host header only from its user. -/
theorem headerMap_newRequest (notCookie : strcasecmp hName (str "Cookie") = false)
    (notAuthorization : strcasecmp hName (str "Authorization") = false) :
    (client.newRequest method target around.now).headerMap (headerKey hName) = [] := by
  obtain ⟨pairs, req, carries, isNew⟩ := client.exists_newRequest method target around.now
  have none : req.getHeaders hName = [] := by
    rw [Package.getHeaders_congr notCookie carries.other]
    unfold Client.startRequest Request.setTarget
    split <;> rfl
  rw [isNew, ← Package.getHeaders_eq]
  split
  · exact none
  · exact (Package.getHeaders_setHeader_of_ne notAuthorization).trans none

theorem authorization_newRequest :
    (client.newRequest method target around.now).headerMap (headerKey (str "Authorization")) =
      if target.auth = [] then [] else [str "Basic " ++ Base64.encode target.auth] := by
  have notCookie : strcasecmp (str "Authorization") (str "Cookie") = false := by decide
  obtain ⟨pairs, req, carries, isNew⟩ := client.exists_newRequest method target around.now
  rw [isNew, ← Package.getHeaders_eq]
  split
  · rw [Package.getHeaders_congr notCookie carries.other]
    unfold Client.startRequest Request.setTarget
    split <;> rfl
  · exact Package.getHeaders_setHeader

theorem basicAuthInfo_of_headers {req : Request} (headers : req.getHeaders (str "Authorization") =
    if s = [] then [] else [str "Basic " ++ Base64.encode s])
    (few : (8 * s.length + 5) / 6 ≤ Base64.intMax) : req.basicAuthInfo = .ok s := by
  rw [Request.basicAuthInfo, getHeader_eq_head?, headers]
  by_cases empty : s = []
  · rw [if_pos empty, empty]
    rfl
  · rw [if_neg empty]
    exact authInfo_basic few

/-- **A URL arrives.** The server gets one request, for the path and the query
of the URL, with its host and port, and decodes its user information. -/
theorem url_arrives (clear : ¬u.StrayAt) (connected : around.connected = true)
    (quiet : around.Quiet) (leaves : around.Leaves (str "Authorization"))
    (leaves' : around.Leaves (str "Host"))
    (readable : ∀ target, splitUrl u.text = some target →
      (client.sending method target around).Readable)
    (comes : server.remaining = (client.request method u.text around).sent.flatten)
    (settled : server.buf.length ≤ maxRead)
    (few : (8 * (u.userInfo.getD []).length + 5) / 6 ≤ Base64.intMax) :
    ∃ req, (parseRequest server).calls = [some req] ∧ req.method = method ∧
      req.path = u.path.getD (str "/") ∧ req.query = u.query.getD [] ∧
      req.getHeaders (str "Host") =
        [u.host ++ str ":" ++ u.port.getD (defaultPort u.scheme)] ∧
      req.basicAuthInfo = .ok (u.userInfo.getD []) := by
  have understood := Url.splitUrl_text clear
  obtain ⟨sent, -⟩ := client.request_of_connected method understood connected
  have parsed := parse_of_sending (readable _ understood) settled
    (comes.trans (congrArg List.flatten sent))
  have noQuery : byte '?' ∉ u.path.getD (str "/") := by
    cases given : u.path with
    | none => decide
    | some p => exact (u.isPath p given).2 _ (by decide)
  obtain ⟨isMethod, isPath, isQuery⟩ := received_line client method
    ⟨schemeOf u.scheme, u.userInfo.getD [], u.host, u.port.getD (defaultPort u.scheme),
      u.path.getD (str "/") ++ (u.query.map (byte '?' :: ·)).getD []⟩ around
  rw [Client.startRequest, Request.setTarget_eq _ noQuery] at isMethod isPath isQuery
  refine ⟨_, parsed, isMethod, isPath, isQuery, ?_, ?_⟩
  · apply getHeaders_host quiet
    rw [userHeaders_of_leaves leaves']
    exact headerMap_newRequest (by decide) (by decide)
  · refine basicAuthInfo_of_headers ?_ few
    rw [getHeaders_received_of_ne quiet (by decide) (by decide) (by decide),
      userHeaders_of_leaves leaves, authorization_newRequest]

end

/-! ## A URL with user information -/

/-- `http://me:pw@h/a?x=1` -/
def userParts : UrlParts where
  scheme := some (str "http")
  userInfo := some (str "me:pw")
  host := str "h"
  path := some (str "/a")
  query := some (str "x=1")

theorem isScheme_userParts : ∀ s ∈ userParts.scheme, IsScheme s := by
  intro s isScheme
  obtain rfl := Option.some_inj.mp isScheme
  exact .inl rfl

theorem isUserInfo_userParts : ∀ auth ∈ userParts.userInfo, auth ≠ [] ∧ FreeOf "@/?" auth := by
  intro auth isUser
  obtain rfl := Option.some_inj.mp isUser
  exact ⟨List.cons_ne_nil _ _, by decide⟩

theorem isHost_userParts : userParts.host ≠ [] ∧ FreeOf "@/?:" userParts.host :=
  ⟨List.cons_ne_nil _ _, by decide⟩

theorem isPort_userParts : ∀ p ∈ userParts.port, p ≠ [] ∧ p.all isDigit = true :=
  fun _ isPort => absurd isPort.symm (Option.some_ne_none _)

theorem isPath_userParts : ∀ p ∈ userParts.path, str "/" <+: p ∧ FreeOf "?" p := by
  intro p isPath
  obtain rfl := Option.some_inj.mp isPath
  exact ⟨List.prefix_append (str "/") (str "a"), by decide⟩

theorem oneLine_userParts : FreeOf "\n\r" userParts.text := by decide

def userUrl : Url where
  toUrlParts := userParts
  isScheme := isScheme_userParts
  isUserInfo := isUserInfo_userParts
  isHost := isHost_userParts
  isPort := isPort_userParts
  isPath := isPath_userParts
  oneLine := oneLine_userParts

def userTarget : Target := ⟨str "http", str "me:pw", str "h", str "80", str "/a?x=1"⟩

theorem not_strayAt_userUrl : ¬userUrl.StrayAt := fun stray => absurd stray.1 (by decide)

def userSending : Sending :=
  ({} : Client).sending (str "GET") userTarget (calm silent)

theorem readable_userSending : userSending.Readable := by decide +kernel

theorem url_arrives_of_user : ∃ req,
    (parseRequest (oneRead userSending.bytes (by decide +kernel))).calls = [some req] ∧
      req.path = str "/a" ∧ req.query = str "x=1" ∧ req.basicAuthInfo = .ok (str "me:pw") := by
  have understood : splitUrl userUrl.text = some userTarget :=
    Url.splitUrl_text not_strayAt_userUrl
  have connected : (calm silent).connected = true := rfl
  obtain ⟨sent, -⟩ := ({} : Client).request_of_connected (str "GET") understood connected
  have readable : ∀ target, splitUrl userUrl.text = some target → (({} : Client).sending
      (str "GET") target (calm silent)).Readable := by
    intro target isTarget
    obtain rfl := Option.some_inj.mp (understood.symm.trans isTarget)
    exact readable_userSending
  obtain ⟨req, calls, -, isPath, isQuery, -, credentials⟩ := url_arrives not_strayAt_userUrl rfl
    (quiet_calm _) (leaves_calm _ _) (leaves_calm _ _) readable
    ((oneRead_remaining userSending.bytes (by decide +kernel)).trans
      (congrArg List.flatten sent).symm) (by exact Nat.zero_le _) (by decide)
  exact ⟨req, calls, isPath, isQuery, credentials⟩

end Ahttpd

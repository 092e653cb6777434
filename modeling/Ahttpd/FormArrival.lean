import Ahttpd.Basis.Delimited
import Ahttpd.Credentials
import Ahttpd.FormParams

/-!
# A form on its way

A client puts an encoded path and an encoded form into its URL, and may write
another form as the body. Nothing of this is in the way of the URL or of the
request line: the server decodes the path, leaves the query as it is, and
`parseParams` finds the parameters of both forms, whatever bytes the segments,
the keys and the values are made of (`form_arrives`).
-/

namespace Ahttpd

open Basis

/-- A path with encoded segments. -/
def encodedPath (segments : List Bytes) : Bytes := behind (byte '/') (segments.map urlEncode)

section Encoded

variable {segments : List Bytes} {pairs : List (Bytes × Bytes)} {c : Byte}

theorem not_isUrlCharacter_of_mem (special : c ∈ str "?@ \n\r") : ¬IsUrlCharacter c := by
  have all : ∀ c ∈ str "?@ \n\r", ¬(isAlnum c = true ∨ c ∈ str "-_.~+%") := by
    decide +kernel
  exact all c special

theorem not_mem_encodedPath (special : c ∈ str "?@ \n\r") : c ∉ encodedPath segments := by
  intro member
  obtain ⟨word, isWord, inside⟩ := List.mem_flatMap.mp member
  obtain ⟨s, -, rfl⟩ := List.mem_map.mp isWord
  rcases List.mem_cons.mp inside with rfl | inside
  · exact absurd special (by decide)
  · exact not_mem_urlEncode (not_isUrlCharacter_of_mem special) s inside

theorem not_mem_formOf (special : c ∈ str "?@ \n\r") : c ∉ formOf pairs := by
  intro member
  obtain ⟨word, isWord, inside⟩ := mem_intercalate member
  obtain ⟨pair, -, rfl⟩ := List.mem_map.mp isWord
  rcases inside with rfl | inside
  · exact absurd special (by decide)
  · unfold paramOf at inside
    rcases List.mem_append.mp inside with inKey | inVal
    · exact not_mem_urlEncode (not_isUrlCharacter_of_mem special) _ inKey
    · rcases List.mem_cons.mp inVal with rfl | inVal
      · exact absurd special (by decide)
      · exact not_mem_urlEncode (not_isUrlCharacter_of_mem special) _ inVal

theorem urlDecode_urlEncode_append (s t : Bytes) :
    urlDecode (urlEncode s ++ t) = (s ++ ·) <$> urlDecode t := by
  rw [urlEncode_eq_flatMap]
  induction s with
  | nil => exact (id_map _).symm
  | cons c s ih =>
      rw [List.flatMap_cons, List.append_assoc, urlDecode_urlEncodeByte, ih]
      cases urlDecode t <;> rfl

/-- The path is decoded segment by segment. -/
theorem urlDecode_encodedPath (segments : List Bytes) :
    urlDecode (encodedPath segments) = some (behind (byte '/') segments) := by
  unfold encodedPath
  induction segments with
  | nil => rfl
  | cons s segments ih =>
      rw [List.map_cons, behind_cons, urlDecode_other (by decide) (by decide),
        urlDecode_urlEncode_append, ih]
      rfl

end Encoded

/-! ## The URL -/

namespace Url

variable {u : Url} {segments : List Bytes} {pairs : List (Bytes × Bytes)}

theorem isPath_encoded (nonempty : segments ≠ []) :
    ∀ p ∈ some (encodedPath segments), str "/" <+: p ∧ FreeOf "?" p := by
  intro p isPath
  obtain rfl := Option.some.inj isPath
  constructor
  · cases segments with
    | nil => exact absurd rfl nonempty
    | cons s segments => exact ⟨_, rfl⟩
  · intro c isMark
    have special : ∀ c ∈ str "?", c ∈ str "?@ \n\r" := by decide +kernel
    exact not_mem_encodedPath (special c isMark)

theorem oneLine_encoded (u : Url) (segments : List Bytes) (pairs : List (Bytes × Bytes)) :
    FreeOf "\n\r" { u.toUrlParts with
      path := some (encodedPath segments), query := some (formOf pairs) }.text := by
  intro c isEnd member
  have special : ∀ c ∈ str "\n\r", c ∈ str "?@ \n\r" ∧ c ≠ byte '?' := by
    decide +kernel
  have free := u.oneLine c isEnd
  simp only [UrlParts.text, UrlParts.body, UrlParts.hostPort, UrlParts.tail, List.mem_append,
    not_or, Option.map_some, Option.getD_some, List.mem_cons] at free member
  rcases free with ⟨noScheme, noUser, ⟨noHost, noPort⟩, -⟩
  rcases member with inScheme | inUser | (inHost | inPort) | inPath | same | inQuery
  · exact noScheme inScheme
  · exact noUser inUser
  · exact noHost inHost
  · exact noPort inPort
  · exact not_mem_encodedPath (special c isEnd).1 inPath
  · exact (special c isEnd).2 same
  · exact not_mem_formOf (special c isEnd).1 inQuery

/-- The URL of a form under a path of the same host. -/
def withForm (u : Url) (segments : List Bytes) (nonempty : segments ≠ [])
    (pairs : List (Bytes × Bytes)) : Url where
  toUrlParts :=
    { u.toUrlParts with path := some (encodedPath segments), query := some (formOf pairs) }
  isScheme := u.isScheme
  isUserInfo := u.isUserInfo
  isHost := u.isHost
  isPort := u.isPort
  isPath := isPath_encoded nonempty
  oneLine := oneLine_encoded u segments pairs

/-- It has no `@` that could be taken for the one behind a user. -/
theorem not_strayAt_withForm (nonempty : segments ≠ []) :
    ¬(u.withForm segments nonempty pairs).StrayAt := by
  intro stray
  obtain ⟨-, before, c, after, split, -⟩ := stray
  have inTail : byte '@' ∈ (u.withForm segments nonempty pairs).tail :=
    split ▸ List.mem_append_right _ List.mem_cons_self
  have parts : byte '@' ∈ encodedPath segments ++ byte '?' :: formOf pairs := inTail
  rcases List.mem_append.mp parts with inPath | inQuery
  · exact not_mem_encodedPath (by decide) inPath
  · rcases List.mem_cons.mp inQuery with same | inQuery
    · exact absurd same (by decide)
    · exact not_mem_formOf (by decide) inQuery

end Url

/-! ## The request line -/

section Line

variable {req : Request} {ops : List MessageOp} {net : Net} {path rest : Bytes}

/-- A path that is decoded on the way. -/
theorem Request.parse_of_encoded (spelled : req.Spelled) (decodes : urlDecode req.path = some path)
    (noMark : byte '?' ∉ req.query) (unsent : req.toPackage.Unsent)
    (readable : req.toPackage.Readable [] ops) (settled : net.buf.length ≤ maxRead)
    (bytes : net.remaining = ((Message.request req).sent ops).flatten ++ rest)
    (ends : rest = [] ∨ req.toPackage.EndsItself [] ops) :
    ∃ t, parseRequest net = ⟨[some (({ req with path } : Request).received ops)], t, .finished⟩ ∧
      Takes net rest t := by
  have reads : ReadsAs requestDialect req.firstLine
      { method := req.method, path, query := req.query, version := req.version ++ [CR] } := by
    refine ⟨_, req.firstLine_eq, lf_not_mem_lineOf spelled.method spelled.url spelled.version, ?_⟩
    have words := requestFirstLine_of_words spelled.method spelled.url spelled.version
      spelled.explode_url
    rw [decodes, headD_explode_eq_iff.mpr noMark] at words
    exact words
  rw [Message.sent_eq] at bytes
  obtain ⟨t, run, takes⟩ := parse_of_messages reads unsent readable settled bytes ends
  refine ⟨t, run.trans ?_, takes⟩
  exact congrArg (fun req => (⟨[some req], t, .finished⟩ : Completion Request))
    (parseCookie_withBody _ _ _)

end Line

section Arrival

variable {client : Client} {method : Bytes} {target : Target} {around : Surroundings} {u : Url}
  {segments : List Bytes} {asked posted : List (Bytes × Bytes)} {server : Net}

/-- What a user who does not flush writes is the body. -/
theorem body_atBlock {p : Package} {ops : List MessageOp} (quiet : .flush ∉ ops) :
    (p.atBlock [] ops).body = p.body ++ BodyOp.written (MessageOp.bodyOps ops) := by
  induction ops generalizing p with
  | nil =>
      rw [Package.atBlock, Package.stocked]
      split
      · rename_i empty
        rw [Package.write, empty]
        rfl
      · exact (List.append_nil _).symm
  | cons op ops ih =>
      have edits : op ≠ .flush := fun same => quiet (same ▸ List.mem_cons_self)
      rw [Package.atBlock_edit edits, ih fun member => quiet (List.mem_cons_of_mem _ member),
        ← BodyOp.flatten_segments, ← Package.segments_edit edits, BodyOp.flatten_segments]

/-- The target of a URL with a form. -/
def formTarget (u : Url) (segments : List Bytes) (asked : List (Bytes × Bytes)) : Target :=
  ⟨schemeOf u.scheme, u.userInfo.getD [], u.host, u.port.getD (defaultPort u.scheme),
    encodedPath segments ++ byte '?' :: formOf asked⟩

theorem splitUrl_withForm (nonempty : segments ≠ []) :
    splitUrl (u.withForm segments nonempty asked).text = some (formTarget u segments asked) :=
  Url.splitUrl_text (Url.not_strayAt_withForm nonempty)

/-- The request that the user of the client gets. -/
theorem newRequest_withForm (client : Client) (method : Bytes) (u : Url) (segments : List Bytes)
    (asked : List (Bytes × Bytes)) (now : Int) :
    client.newRequest method (formTarget u segments asked) now =
      { method, path := encodedPath segments, query := formOf asked, version := str "HTTP/1.1",
        headers := (client.newRequest method (formTarget u segments asked) now).headers } := by
  have clean : byte '?' ∉ encodedPath segments := not_mem_encodedPath (by decide)
  have split := Request.setTarget_eq (({} : Request).setMethod method) clean (some (formOf asked))
  have start : Client.startRequest method (formTarget u segments asked) = _ :=
    congrArg (Request.setVersion · (str "HTTP/1.1")) split
  rw [newRequest_eq, start]
  rfl

/-- The request, with all that is done to it. -/
def formSending (client : Client) (method : Bytes) (u : Url) (segments : List Bytes)
    (asked : List (Bytes × Bytes)) (around : Surroundings) : Sending :=
  client.sending method (formTarget u segments asked) around

theorem req_formSending : (formSending client method u segments asked around).req =
    { method, path := encodedPath segments, query := formOf asked, version := str "HTTP/1.1",
      headers := (client.newRequest method (formTarget u segments asked) around.now).headers } :=
  newRequest_withForm client method u segments asked around.now

theorem spelled_formSending (nonempty : segments ≠ []) (word : Word method) :
    (formSending client method u segments asked around).req.Spelled := by
  have version : Word (str "HTTP/1.1") := ⟨by decide, by decide, by decide, by decide⟩
  have filled : encodedPath segments ≠ [] := by
    cases segments with
    | nil => exact absurd rfl nonempty
    | cons s segments => exact List.cons_ne_nil _ _
  rw [req_formSending]
  exact ⟨word, version, ⟨filled, not_mem_encodedPath (by decide), not_mem_encodedPath (by decide),
    not_mem_encodedPath (by decide)⟩, not_mem_encodedPath (by decide), not_mem_formOf (by decide),
    not_mem_formOf (by decide), not_mem_formOf (by decide)⟩

theorem bodyOps_append (ops ops' : List MessageOp) :
    MessageOp.bodyOps (ops ++ ops') = MessageOp.bodyOps ops ++ MessageOp.bodyOps ops' := by
  induction ops with
  | nil => rfl
  | cons op ops ih => cases op <;> simp [MessageOp.bodyOps, ih]

/-- The line and the body of a request as the server gets it. -/
theorem received_fields (req : Request) (ops : List MessageOp) :
    (req.received ops).method = req.method ∧ (req.received ops).path = req.path ∧
      (req.received ops).query = req.query ∧
      (req.received ops).body = req.toPackage.bodyRead [] ops := by
  unfold Request.received Request.parseCookie
  split <;> exact ⟨rfl, rfl, rfl, rfl⟩

/-- What the user writes is the whole body. -/
theorem bodyRead_formSending (quiet : around.Quiet)
    (posts : ∀ req, BodyOp.written (MessageOp.bodyOps (around.reqHandler req)) = formOf posted) :
    (formSending client method u segments asked around).req.toPackage.bodyRead []
      (formSending client method u segments asked around).ops = formOf posted := by
  have unflushed : .flush ∉ (formSending client method u segments asked around).ops :=
    flush_not_mem_sending quiet
  have closing (m : Message) : BodyOp.written (MessageOp.bodyOps
      (Client.closingOps (formTarget u segments asked) m)) = [] := by
    unfold Client.closingOps
    split <;> rfl
  rw [Package.bodyRead, if_neg unflushed, body_atBlock unflushed, req_formSending]
  change [] ++ BodyOp.written (MessageOp.bodyOps (_ ++ _)) = _
  rw [bodyOps_append, BodyOp.written, List.flatMap_append]
  exact (congrArg (_ ++ ·) (closing _)).trans ((List.append_nil _).trans (posts _))

/-- `parseParams` on this text finds these parameters. -/
def Request.Finds (req : Request) (text : Bytes) (pairs : List (Bytes × Bytes)) : Prop :=
  ∃ form, (FormRequest.mk req ∅).parseParams text = .ok form ∧
    (∀ key, key ∈ form.paramMap ↔ key ∈ pairs.map Prod.fst) ∧
    ∀ key, (form.getParamValue key).1 = (lastValue pairs key).getD []

theorem Request.finds_formOf {pairs : List (Bytes × Bytes)} (req : Request)
    (keys : ∀ pair ∈ pairs, pair.1 ≠ []) : req.Finds (formOf pairs) pairs := by
  have lookups (key : Bytes) :
      (pairs.foldl (fun map pair => map.insert pair.1 pair.2) ∅ : ParamMap).lookup key =
        lastValue pairs key := by
    rw [lookup_foldl_insert, Finmap.lookup_empty, Option.or_none]
  refine ⟨_, parseParams_eq keys _, fun key => ?_, fun key => ?_⟩
  · rw [← Finmap.lookup_isSome, lookups, lastValue_isSome_iff]
  · unfold FormRequest.getParamValue
    dsimp only
    rw [lookups]
    cases lastValue pairs key <;> rfl

/-- **A form arrives.** Whatever the segments of the path and the keys and values
of the forms are made of, and however the bytes are cut into reads: the server
gets one request, for the path with these segments, and its user finds in the
query what the client has asked with, and in the body what it has posted. -/
theorem form_arrives (nonempty : segments ≠ []) (keys : ∀ pair ∈ asked, pair.1 ≠ [])
    (keys' : ∀ pair ∈ posted, pair.1 ≠ []) (word : Word method)
    (connected : around.connected = true) (quiet : around.Quiet)
    (posts : ∀ req, BodyOp.written (MessageOp.bodyOps (around.reqHandler req)) = formOf posted)
    (readable : (formSending client method u segments asked around).req.Readable []
      (formSending client method u segments asked around).ops)
    (comes : server.remaining =
      (client.request method (u.withForm segments nonempty asked).text around).sent.flatten)
    (settled : server.buf.length ≤ maxRead) :
    ∃ req, (parseRequest server).calls = [some req] ∧ req.method = method ∧
      req.path = behind (byte '/') segments ∧ req.Finds req.query asked ∧
      req.Finds req.body posted := by
  obtain ⟨sent, -⟩ := client.request_of_connected method (splitUrl_withForm nonempty) connected
  rw [sent] at comes
  have decodes : urlDecode (formSending client method u segments asked around).req.path =
      some (behind (byte '/') segments) := by
    rw [req_formSending]
    exact urlDecode_encodedPath segments
  have noMark : byte '?' ∉ (formSending client method u segments asked around).req.query := by
    rw [req_formSending]
    exact not_mem_formOf (by decide)
  obtain ⟨t, run, -⟩ := Request.parse_of_encoded (spelled_formSending nonempty word) decodes noMark
    unsent_sending readable settled (comes.trans (List.append_nil _).symm) (.inl rfl)
  obtain ⟨isMethod, isPath, isQuery, isBody⟩ := received_fields
    { (formSending client method u segments asked around).req with
      path := behind (byte '/') segments } (formSending client method u segments asked around).ops
  refine ⟨_, by rw [run], ?_, isPath, ?_, ?_⟩
  · rw [isMethod, req_formSending]
  · rw [isQuery, req_formSending]
    exact Request.finds_formOf _ keys
  · rw [isBody, bodyRead_formSending quiet posts]
    exact Request.finds_formOf _ keys'

end Arrival

/-! ## A form in the query and one in the body -/

def postedForm : List (Bytes × Bytes) := [(str "@", str "1&2")]

/-- A user who posts it. -/
def posting : Surroundings :=
  { calm silent with reqHandler := fun _ => [.write (formOf postedForm)] }

def postSending : Sending := formSending {} (str "POST") userUrl [str "a b"] sampleForm posting

theorem readable_postSending : postSending.req.Readable [] postSending.ops := by decide +kernel

/-- The server finds a path with a space, and both forms. -/
theorem form_arrives_of_post : ∃ server req, (parseRequest server).calls = [some req] ∧
    req.path = str "/a b" ∧ req.Finds req.query sampleForm ∧ req.Finds req.body postedForm := by
  have nonempty : [str "a b"] ≠ [] := List.cons_ne_nil _ _
  have keys : ∀ pair ∈ sampleForm, pair.1 ≠ [] := by decide
  have keys' : ∀ pair ∈ postedForm, pair.1 ≠ [] := by decide
  obtain ⟨req, calls, -, isPath, inQuery, inBody⟩ := form_arrives (u := userUrl) nonempty keys keys'
    ⟨by decide, by decide, by decide, by decide⟩ rfl (fun _ => by simp [posting])
    (fun _ => List.append_nil _) readable_postSending (byteByByte_remaining _)
    (by exact Nat.zero_le _)
  exact ⟨_, req, calls, isPath, inQuery, inBody⟩

end Ahttpd

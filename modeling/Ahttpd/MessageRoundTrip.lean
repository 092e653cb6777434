import Ahttpd.Framing
import Ahttpd.HeaderStore
import Ahttpd.RoundTrip
import Ahttpd.StatusLine
import Mathlib.Data.List.Infix

/-!
# Whole messages on the wire

Everything that user code does to a message (headers added, replaced and
deleted, writes and flushes, in any order) comes to one first line, one header
block and one body. Here the parser is run over all three: it gives back the
message as it was when its header block went out, with the whole body, and
stops at the byte behind it (`parse_of_messages`). `request_round_trip` and
`response_round_trip` are the two kinds of message; `Request.received` and
`Response.received` say what arrives.
-/

namespace Ahttpd

open Basis

namespace Package

/-- Everything that is sent as the body. -/
def bodyRead (stock : Bytes) (p : Package) (ops : List MessageOp) : Bytes :=
  if .flush ∈ ops then p.body ++ BodyOp.written (MessageOp.bodyOps ops)
  else (p.atBlock stock ops).body

/-- What the reader has to find in a message: headers that it can take apart,
one of them for the framing, and a body within its limits. -/
@[mk_iff]
structure Readable (stock : Bytes) (p : Package) (ops : List MessageOp) : Prop where
  headers : ∀ h ∈ (p.atBlock stock ops).headers, h.WellFormed ∧ ¬ colonSpace <:+: h.value
  framing : LeavesFraming true (p.atBlock stock ops).headers (decide (.flush ∈ ops))
    (p.atBlock stock ops).body
  chunks : .flush ∈ ops → ∀ segment ∈ BodyOp.segments p.body (MessageOp.bodyOps ops),
    segment.length ≤ stackBuffSize
  whole : .flush ∉ ops → (p.atBlock stock ops).body.length < 2 ^ 31

instance (stock : Bytes) (p : Package) (ops : List MessageOp) : Decidable (Readable stock p ops) :=
  decidable_of_iff _ (readable_iff stock p ops).symm

/-- A package that can be sent and of which nothing has been sent. -/
@[mk_iff]
structure Unsent (p : Package) : Prop where
  connected : p.connected = true
  whole : p.chunked = false
  started : p.sendStarted = false

instance (p : Package) : Decidable p.Unsent := decidable_of_iff _ (unsent_iff p).symm

/-- Where the message ends is seen without looking at how much is buffered. -/
def EndsItself (stock : Bytes) (p : Package) (ops : List MessageOp) : Prop :=
  .flush ∈ ops ∨ (p.atBlock stock ops).body = []

end Package

section Bodies

variable {p : Package} {net : Net} {body rest : Bytes}

theorem exists_of_getHeader {hName value : Bytes} (given : p.getHeader hName = some value) :
    ∃ h ∈ p.headers, strcasecmp h.name hName = true ∧ h.value = value := by
  rcases Option.map_eq_some_iff.mp given with ⟨h, found, isValue⟩
  have named := List.find?_some found
  exact ⟨h, List.mem_of_find?_eq_some found, by simpa using named, isValue⟩

/-- A block with one right framing header selects the chunked body. -/
theorem selectsChunked_of_oneFraming (one : OneFraming true p.headers true body)
    (given : (p.getHeader (str "Transfer-Encoding")).isSome = true) : SelectsChunked p := by
  obtain ⟨value, isEncoding⟩ := Option.isSome_iff_exists.mp given
  refine ⟨?_, value, isEncoding, ?_⟩
  · rw [getHeader_contentLength_eq_none_iff]
    intro h member
    cases isLength : h.isContentLength with
    | false => rfl
    | true =>
        have encoding := (one.chunks rfl h member (isFraming_of_isContentLength isLength)).1
        rw [Header.isContentLength, strcasecmp_eq_key, decide_eq_true_iff] at isLength
        rw [Header.isTransferEncoding, strcasecmp_eq_key, decide_eq_true_iff, isLength] at encoding
        exact absurd encoding (by decide)
  · obtain ⟨h, member, named, rfl⟩ := exists_of_getHeader isEncoding
    have framing : h.isFraming = true := by
      rw [Header.isFraming, show h.isTransferEncoding = true from named, Bool.or_true]
    exact (one.chunks rfl h member framing).2

/-- A body whose length a header gives is taken off the input, if it is all
that is left or empty. -/
theorem parseBody_of_length {h : Bytes} (isLength : p.getHeader (str "Content-Length") = some h)
    (value : intValue h = some (body.length : Int)) (small : body.length < 2 ^ 31)
    (bytes : net.remaining = body ++ rest) (ends : rest = [] ∨ body = []) :
    ∃ t, parseBody p net = ⟨[some (p.write body)], t, .finished⟩ ∧ Takes net rest t := by
  have cast : lexicalCastUnsigned (2 ^ 64) h = some body.length := by
    rw [lexicalCast_eq, value, Option.bind_some, if_pos (by omega)]
    congr 1
    omega
  cases size : body.length with
  | zero =>
      obtain rfl := List.length_eq_zero_iff.mp size
      refine ⟨net, ?_, bytes, rfl, le_max_left _ _⟩
      simp only [parseBody, isLength, cast, Package.write_nil]
      rfl
  | succ n =>
      obtain rfl : rest = [] := ends.resolve_right fun empty => by simp [empty] at size
      rw [List.append_nil] at bytes
      have exact' : toInt32 (body.length : Nat) = (body.length : Nat) :=
        toInt32_eq (by omega) (by omega)
      have buffered : net.buf.length ≤ body.length := by
        rw [← bytes, Segmented.remaining, List.length_append]
        omega
      have fits : LengthFits body.length net := ⟨fun _ => by omega, fun _ => by omega⟩
      obtain ⟨u, run, takes⟩ := readLengthBody_of_whole p fits exact'
        (Nat.le_of_eq (congrArg List.length bytes.symm))
      rw [bytes, List.drop_length] at takes
      rw [bytes, List.take_length, size] at run
      rw [size] at cast
      refine ⟨u, ?_, takes⟩
      simp only [parseBody, isLength, cast]
      exact run

end Bodies

/-! ## Any message -/

/-- The first line of a message is one line, and its reader makes this of
it. -/
def ReadsAs {π : Type} (D : Dialect π) (firstLine : Bytes) (first : π) : Prop :=
  ∃ line, firstLine = line ++ [LF] ∧ LF ∉ line ∧ D.firstLine D.fresh line = .ok (some first)

/-- A message as the parser delivers it. -/
def Dialect.assemble {π : Type} (D : Dialect π) (first : π) (headers : List Header)
    (body : Bytes) : π :=
  D.withPackage (D.parseCookie (D.withPackage first { headers })) { headers, body }

section Messages

variable {π : Type} {D : Dialect π} {net : Net} {firstLine stock rest : Bytes} {first : π}
  {headers : List Header} {p : Package} {ops : List MessageOp}

/-- A message up to its body, with all that it has been read as. -/
theorem reachesBody_of_block (reads : ReadsAs D firstLine first)
    (wellFormed : ∀ h ∈ headers, h.WellFormed ∧ ¬ colonSpace <:+: h.value)
    (bytes : net.remaining = firstLine ++ headerBlock headers ++ rest) :
    ∃ t, ReachesBody D net (D.parseCookie (D.withPackage first { headers })) t ∧
      Takes net rest t := by
  obtain ⟨line, rfl, oneLine, accepts⟩ := reads
  have isLine : net.remaining = line ++ LF :: (headerBlock headers ++ rest) := by
    rw [bytes]
    simp
  obtain ⟨t', read, takes⟩ := readLine_of_line oneLine isLine
  have isFirst : parseFirstLine (D.firstLine D.fresh) net = .handle (some first) t' := by
    rw [parseFirstLine_of_line read, accepts]
  obtain ⟨t, read', takes'⟩ := parseHeaders_of_headerBlock {}
    (fun h member => (wellFormed h member).1) takes.remaining
  have same : headers.map Header.readBack = headers :=
    (List.map_congr_left fun h member =>
      (readBack_eq_self_iff (wellFormed h member).1).mpr (wellFormed h member).2).trans
      (List.map_id _)
  rw [same, List.nil_append] at read'
  exact ⟨t, ⟨first, t', isFirst, _, read', rfl⟩, takes.trans takes'⟩

/-- The header block that is sent can be read. -/
theorem Package.Readable.block (readable : p.Readable stock ops) :
    ∀ h ∈ (p.atBlock stock ops).frame.headers, h.WellFormed ∧ ¬ colonSpace <:+: h.value := by
  rw [Package.frame_eq]
  intro h member
  rcases List.mem_append.mp member with set | added
  · exact readable.headers h set
  · exact framing_readsBack added

theorem getHeader_frame_of_chunked (chunked : p.chunked = true) :
    (p.frame.getHeader (str "Transfer-Encoding")).isSome = true := by
  rw [Package.frame_of_chunked chunked, Package.getHeader, Option.isSome_map,
    List.find?_isSome]
  exact ⟨_, List.mem_append_right _ List.mem_cons_self, strcasecmp_self _⟩

theorem getHeader_frame_of_whole (whole : p.chunked = false) :
    ∃ value, p.frame.getHeader (str "Content-Length") = some value := by
  unfold Package.frame
  rw [if_neg (by simp [whole])]
  cases given : p.getHeader (str "Content-Length") with
  | some value => exact ⟨value, given⟩
  | none =>
      apply Option.isSome_iff_exists.mp
      dsimp only
      rw [Package.getHeader, Option.isSome_map, List.find?_isSome]
      exact ⟨_, List.mem_append_right _ List.mem_cons_self, strcasecmp_self _⟩

/-- The body that is sent is read back, and the reader stops behind it. -/
theorem parseBody_of_bodySent (whole : p.chunked = false)
    (readable : p.Readable stock ops) (settled : net.buf.length ≤ maxRead)
    (bytes : net.remaining = p.bodySent stock ops ++ rest)
    (ends : rest = [] ∨ p.EndsItself stock ops) :
    ∃ t, parseBody { headers := (p.atBlock stock ops).frame.headers } net =
        ⟨[some { headers := (p.atBlock stock ops).frame.headers
                 body := p.bodyRead stock ops }], t, .finished⟩ ∧
      Takes net rest t := by
  have isChunked := Message.atBlock_chunked stock whole ops
  by_cases flushed : MessageOp.flush ∈ ops
  · rw [decide_eq_true flushed] at isChunked
    have one := (oneFraming_chunked_iff (p := p.atBlock stock ops) isChunked).mpr
      (decide_eq_true flushed ▸ readable.framing)
    have selects : SelectsChunked { headers := (p.atBlock stock ops).frame.headers } :=
      selectsChunked_of_oneFraming one (getHeader_frame_of_chunked isChunked)
    rw [Package.bodySent, if_pos flushed] at bytes
    have connected :
        ({ headers := (p.atBlock stock ops).frame.headers } : Package).connected = true := rfl
    obtain ⟨t, run, takes⟩ := readChunkedBody_of_chunks connected settled
      (readable.chunks flushed) bytes
    refine ⟨t, ?_, takes⟩
    rw [parseBody_of_chunked selects, run, Package.bodyRead, if_pos flushed,
      BodyOp.flatten_segments]
    rfl
  · rw [decide_eq_false flushed] at isChunked
    have one := (oneFraming_whole_iff (p := p.atBlock stock ops) isChunked).mpr
      (decide_eq_false flushed ▸ readable.framing)
    obtain ⟨value, isLength⟩ := getHeader_frame_of_whole isChunked
    obtain ⟨h, member, named, isValue⟩ := exists_of_getHeader isLength
    have length := (one.whole rfl h member (isFraming_of_isContentLength named)).2 rfl
    rw [isValue] at length
    rw [Package.bodySent, if_neg flushed] at bytes
    obtain ⟨t, run, takes⟩ := parseBody_of_length
      (p := { headers := (p.atBlock stock ops).frame.headers }) isLength length
      (readable.whole flushed) bytes (ends.imp_right fun itself => itself.resolve_left flushed)
    refine ⟨t, ?_, takes⟩
    rw [run, Package.bodyRead, if_neg flushed]
    rfl

/-- **A message is read back whole**: what any operations and the destruction
send is delivered once, with its first line, its header block and its body,
and what comes behind it is left. -/
theorem parse_of_messages (reads : ReadsAs D firstLine first) (unsent : p.Unsent)
    (readable : p.Readable stock ops) (settled : net.buf.length ≤ maxRead)
    (bytes : net.remaining = (p.messagesWith firstLine stock ops).flatten ++ rest)
    (ends : rest = [] ∨ p.EndsItself stock ops) :
    ∃ t, parse D net = ⟨[some (D.assemble first (p.atBlock stock ops).frame.headers
        (p.bodyRead stock ops))], t, .finished⟩ ∧ Takes net rest t := by
  rw [Package.messagesWith_flatten unsent.connected unsent.whole unsent.started,
    List.append_assoc] at bytes
  obtain ⟨t, reaches, takes⟩ := reachesBody_of_block reads readable.block bytes
  obtain ⟨u, run, takes'⟩ := parseBody_of_bodySent unsent.whole readable
    (takes.settled settled) takes.remaining ends
  refine ⟨u, ?_, takes.trans takes'⟩
  rw [reaches.parse_eq, D.package_parseCookie, D.package_withPackage, run]
  rfl

end Messages

/-! ## Requests -/

namespace Request

/-- The target has nothing that the reader would decode or cut off. -/
@[mk_iff]
structure PlainTarget (req : Request) : Prop where
  noPercent : byte '%' ∉ req.path
  noPlus : byte '+' ∉ req.path
  noMark : byte '?' ∉ req.query

instance (req : Request) : Decidable req.PlainTarget :=
  decidable_of_iff _ (plainTarget_iff req).symm

/-- The request as it is delivered at the other end. Its version has the CR of
the line end behind it. -/
def received (req : Request) (ops : List MessageOp) : Request :=
  parseCookie
    { method := req.method
      path := req.path
      query := req.query
      version := req.version ++ [CR]
      headers := (req.toPackage.atBlock [] ops).frame.headers
      body := req.toPackage.bodyRead [] ops }

section

variable {req : Request} {ops : List MessageOp} {net : Net} {rest : Bytes}

theorem readsAs_firstLine (spelled : req.Spelled) (plain : req.PlainTarget) :
    ReadsAs requestDialect req.firstLine
      { method := req.method, path := req.path, query := req.query,
        version := req.version ++ [CR] } := by
  refine ⟨_, req.firstLine_eq, lf_not_mem_lineOf spelled.method spelled.url spelled.version, ?_⟩
  have reads := requestFirstLine_of_words spelled.method spelled.url spelled.version
    spelled.explode_url
  rw [urlDecode_eq_self_iff.mpr ⟨plain.noPercent, plain.noPlus⟩,
    headD_explode_eq_iff.mpr plain.noMark] at reads
  exact reads

/-- The cookies are those of the Cookie header, whatever the body. -/
theorem parseCookie_withBody (req : Request) (headers : List Header) (body : Bytes) :
    (req.withPackage { headers }).parseCookie.withPackage { headers, body } =
      (req.withPackage { headers, body }).parseCookie := by
  have same : (req.withPackage { headers, body }).getHeader (str "Cookie") =
      (req.withPackage { headers }).getHeader (str "Cookie") := rfl
  unfold parseCookie
  rw [same]
  split <;> rfl

theorem parse_of_request (spelled : req.Spelled) (plain : req.PlainTarget)
    (unsent : req.toPackage.Unsent) (readable : req.toPackage.Readable [] ops)
    (settled : net.buf.length ≤ maxRead)
    (bytes : net.remaining = ((Message.request req).sent ops).flatten ++ rest)
    (ends : rest = [] ∨ req.toPackage.EndsItself [] ops) :
    ∃ t, parseRequest net = ⟨[some (req.received ops)], t, .finished⟩ ∧ Takes net rest t := by
  rw [Message.sent_eq] at bytes
  obtain ⟨t, run, takes⟩ := parse_of_messages (readsAs_firstLine spelled plain) unsent readable
    settled bytes ends
  refine ⟨t, run.trans ?_, takes⟩
  exact congrArg (fun req => (⟨[some req], t, .finished⟩ : Completion Request))
    (parseCookie_withBody _ _ _)

/-- **Round trip of a request.** Whatever user code does to the headers and the
body of a request, in any order and with any flushes, and however the bytes it
sends are cut into reads: the server gets one request, with the method, path,
query and headers and with the whole body, and what comes behind it is still to
be read. -/
theorem request_round_trip (spelled : req.Spelled) (plain : req.PlainTarget)
    (unsent : req.toPackage.Unsent) (readable : req.toPackage.Readable [] ops)
    (settled : net.buf.length ≤ maxRead)
    (bytes : net.remaining = ((Message.request req).sent ops).flatten ++ rest)
    (ends : rest = [] ∨ req.toPackage.EndsItself [] ops) :
    (parseRequest net).calls = [some (req.received ops)] ∧
      (parseRequest net).net.remaining = rest := by
  obtain ⟨t, run, takes⟩ := parse_of_request spelled plain unsent readable settled bytes ends
  rw [run]
  exact ⟨rfl, takes.remaining⟩

/-- A header is set, two chunks are sent, and another request is behind. -/
def twoChunksOps : List MessageOp :=
  [.addHeader (str "Host") (str "a"), .setHeader (str "host") (str "b:80"), .write (str "ab"),
    .flush, .write (str "c")]

theorem readable_of_two_chunks : (search (str "/a") (str "x=1")).Readable [] twoChunksOps := by
  decide +kernel

theorem request_round_trip_of_two_chunks :
    (parseRequest (oneRead (((Message.request (search (str "/a") (str "x=1"))).sent
        twoChunksOps).flatten ++ str "GET") (by decide +kernel))).calls =
      [some ((search (str "/a") (str "x=1")).received twoChunksOps)] :=
  (request_round_trip (by decide) (by decide) ⟨rfl, rfl, rfl⟩ readable_of_two_chunks
    (by exact Nat.zero_le _) ((oneRead_remaining _ _).trans (List.append_nil _))
    (.inr (.inl (by decide)))).1

end

end Request

/-! ## Responses -/

/-- The status that the table has for a status. -/
def knownStatus (status : UInt16) : UInt16 :=
  if status.toNat ∈ parseStatusCases then status else InternalServerError

/-- What the table has behind the version and the three digits. -/
def reasonPhrase (status : UInt16) : Bytes := (statusHead status).drop 13

namespace Response

/-- The version, status and reason phrase that are written. -/
def statusLine (res : Response) : Bytes × UInt16 × Bytes :=
  if res.msg = [] ∨ res.version = [] ∨ res.status = 0 then
    (str "HTTP/1.1", knownStatus res.status, reasonPhrase res.status)
  else (res.version, res.status, res.version)

/-- The version can stand on the line, also in the place of the message. -/
@[mk_iff]
structure PlainVersion (res : Response) : Prop where
  printable : Printable res.version
  noDigitField : ¬DigitField (SP :: res.version)

instance (res : Response) : Decidable res.PlainVersion :=
  decidable_of_iff _ (plainVersion_iff res).symm

/-- The response as it is delivered at the other end. -/
def received (res : Response) (ops : List MessageOp) : Response where
  version := res.statusLine.1
  status := res.statusLine.2.1
  msg := res.statusLine.2.2
  headers := (res.toPackage.atBlock res.stockBody ops).frame.headers
  body := res.toPackage.bodyRead res.stockBody ops

end Response

section StatusLines

variable {status : UInt16} {version code reason : Bytes}

theorem statusCode_decimal (status : UInt16) : StatusCode (decimal status.toNat) where
  nonempty := render_ne_nil 10 _
  digits := List.all_eq_true.mpr fun _ member => isDigit_of_mem_decimal member
  small := by
    have value : valueOf 10 (decimal status.toNat) = status.toNat :=
      valueOf_render (by decide) (by decide)
    rw [value]
    exact status.toNat_lt

/-- The lines of the table. -/
theorem statusHead_cases : ∀ n ∈ parseStatusCases,
    statusHead (UInt16.ofNat n) = str "HTTP/1.1" ++ SP :: (decimal n ++
        SP :: reasonPhrase (UInt16.ofNat n)) ∧
      Printable (reasonPhrase (UInt16.ofNat n)) ∧
      hasDigitField (SP :: reasonPhrase (UInt16.ofNat n)) = false := by
  decide +kernel

/-- A status that the table does not have gets the line of an internal server
error. -/
theorem statusHead_knownStatus (status : UInt16) :
    knownStatus status = UInt16.ofNat (knownStatus status).toNat ∧
      (knownStatus status).toNat ∈ parseStatusCases ∧
      statusHead status = statusHead (knownStatus status) := by
  refine ⟨UInt16.ofNat_toNat.symm, ?_⟩
  unfold knownStatus
  split
  · rename_i known
    exact ⟨known, rfl⟩
  · rename_i unknown
    refine ⟨by decide, ?_⟩
    rw [statusHead_of_not_mem unknown]
    decide +kernel

theorem statusHead_eq (status : UInt16) :
    statusHead status = str "HTTP/1.1" ++ SP :: (decimal (knownStatus status).toNat ++
        SP :: reasonPhrase status) ∧
      Printable (reasonPhrase status) ∧ ¬DigitField (SP :: reasonPhrase status) := by
  obtain ⟨isKnown, member, same⟩ := statusHead_knownStatus status
  obtain ⟨line, printable, none⟩ := statusHead_cases _ member
  rw [← isKnown] at line printable none
  rw [show reasonPhrase (knownStatus status) = reasonPhrase status by
    rw [reasonPhrase, reasonPhrase, same]] at line printable none
  refine ⟨same.trans line, printable, fun field => ?_⟩
  rw [hasDigitField_iff.mpr field] at none
  cases none

/-- A status line is read as what it was written from. -/
theorem responseFirstLine_lineOf (isVersion : Printable version) (isReason : Printable reason)
    (last : ¬DigitField (SP :: reason)) :
    responseFirstLine {} (lineOf version (decimal status.toNat) reason) =
      .ok (some { version, status, msg := reason }) := by
  have isCode := statusCode_decimal status
  have value : valueOf 10 (decimal status.toNat) = status.toNat :=
    valueOf_render (by decide) (by decide)
  obtain ⟨results, found, first, second, third⟩ :=
    search_firstLineReg isVersion isCode.all isReason last
  rw [responseFirstLine_of_search found, first, second, third, lexicalCast_of_statusCode isCode,
    value, Option.map_some, UInt16.ofNat_toNat]
  rfl

end StatusLines

namespace Response

section

variable {res : Response} {ops : List MessageOp} {net : Net} {rest : Bytes}

theorem firstLine_eq_lineOf (res : Response) : res.firstLine =
    lineOf res.statusLine.1 (decimal res.statusLine.2.1.toNat) res.statusLine.2.2 ++ [LF] := by
  unfold firstLine statusLine
  split
  · rw [(statusHead_eq res.status).1]
    simp [lineOf]
  · simp [lineOf, str]

theorem readsAs_firstLine (plain : res.PlainVersion) :
    ReadsAs responseDialect res.firstLine
      { version := res.statusLine.1, status := res.statusLine.2.1, msg := res.statusLine.2.2 } := by
  have fields : Printable res.statusLine.1 ∧ Printable res.statusLine.2.2 ∧
      ¬DigitField (SP :: res.statusLine.2.2) := by
    unfold statusLine
    split
    · have isVersion : Printable (str "HTTP/1.1") := by decide
      exact ⟨isVersion, (statusHead_eq res.status).2⟩
    · exact ⟨plain.printable, plain.printable, plain.noDigitField⟩
  obtain ⟨isVersion, isReason, last⟩ := fields
  exact ⟨_, res.firstLine_eq_lineOf,
    lf_not_mem_statusLine isVersion (statusCode_decimal _) isReason,
    responseFirstLine_lineOf isVersion isReason last⟩

theorem parse_of_response (plain : res.PlainVersion) (unsent : res.toPackage.Unsent)
    (readable : res.toPackage.Readable res.stockBody ops) (settled : net.buf.length ≤ maxRead)
    (bytes : net.remaining = ((Message.response res).sent ops).flatten ++ rest)
    (ends : rest = [] ∨ res.toPackage.EndsItself res.stockBody ops) :
    ∃ t, parseResponse net = ⟨[some (res.received ops)], t, .finished⟩ ∧ Takes net rest t := by
  rw [Message.sent_eq] at bytes
  exact parse_of_messages (readsAs_firstLine plain) unsent readable settled bytes ends

/-- **Round trip of a response.** Whatever user code does to the headers and
the body of a response, in any order and with any flushes, and however the
bytes it sends are cut into reads: the client gets one response, with the
status of the table and with the headers and the whole body, the stock reply
where there is none, and what comes behind it is still to be read. -/
theorem response_round_trip (plain : res.PlainVersion) (unsent : res.toPackage.Unsent)
    (readable : res.toPackage.Readable res.stockBody ops) (settled : net.buf.length ≤ maxRead)
    (bytes : net.remaining = ((Message.response res).sent ops).flatten ++ rest)
    (ends : rest = [] ∨ res.toPackage.EndsItself res.stockBody ops) :
    (parseResponse net).calls = [some (res.received ops)] ∧
      (parseResponse net).net.remaining = rest := by
  obtain ⟨t, run, takes⟩ := parse_of_response plain unsent readable settled bytes ends
  rw [run]
  exact ⟨rfl, takes.remaining⟩

theorem readable_of_notFound : notFound.Readable notFound.stockBody [] := by
  decide +kernel

/-- A response that nothing is written to arrives with the stock reply. -/
theorem response_round_trip_of_notFound :
    (parseResponse (oneRead ((Message.response notFound).sent []).flatten
      (by decide +kernel))).calls = [some (notFound.received [])] :=
  (response_round_trip ⟨by decide, by decide⟩ ⟨rfl, rfl, rfl⟩ readable_of_notFound
    (by exact Nat.zero_le _) (oneRead_remaining _ _) (.inl rfl)).1

end

end Response

/-! ## Headers, end to end -/

/-- What a message says about each header name: the operations up to the first
flush act on the map one after the other, and the framing comes last. -/
def Package.headersSent (stock : Bytes) (p : Package) (ops : List MessageOp) : HeaderMap :=
  ((ops.takeWhile (· ≠ .flush)).foldl HeaderMap.exec p.headerMap).framed
    (decide (.flush ∈ ops)) (p.bodyRead stock ops).length

section Headers

variable {p : Package} {stock : Bytes} {ops : List MessageOp}

theorem headerMap_block (whole : p.chunked = false) (stock : Bytes) (ops : List MessageOp) :
    (p.atBlock stock ops).frame.headerMap = p.headersSent stock ops := by
  rw [Package.headerMap_frame, Package.headerMap_atBlock, Message.atBlock_chunked stock whole,
    Package.headersSent, Package.contentLength, Package.bodyRead]
  by_cases flushed : MessageOp.flush ∈ ops
  · rw [if_pos flushed, decide_eq_true flushed]
    rfl
  · rw [if_neg flushed]

theorem Request.headerMap_received {req : Request} (whole : req.chunked = false) :
    (req.received ops).headerMap = req.headersSent [] ops := by
  rw [← headerMap_block whole, Request.received, Package.headerMap,
    Request.parseCookie_toPackage]
  rfl

theorem Response.headerMap_received {res : Response} (whole : res.chunked = false) :
    (res.received ops).headerMap = res.headersSent res.stockBody ops :=
  headerMap_block whole res.stockBody ops

/-- Without a flush all operations act, and the length is that of the body. -/
theorem headersSent_of_quiet (quiet : .flush ∉ ops) : p.headersSent stock ops =
    (ops.foldl HeaderMap.exec p.headerMap).framed false (p.bodyRead stock ops).length := by
  have all : ops.takeWhile (· ≠ .flush) = ops :=
    List.takeWhile_eq_self_iff.mpr fun op member => by
      simpa using fun same : op = .flush => quiet (same ▸ member)
  rw [Package.headersSent, all, decide_eq_false quiet]

/-- **Headers, end to end.** What the receiver of a message finds under a name,
in whatever case it asks, is what the header operations up to the first flush
leave there: added values in order, one value where it was set last, none where
it was deleted. -/
theorem headers_arrive :
    (∀ (req : Request) (ops : List MessageOp) (net : Net), req.Spelled → req.PlainTarget →
      req.toPackage.Unsent → req.toPackage.Readable [] ops → net.buf.length ≤ maxRead →
      net.remaining = ((Message.request req).sent ops).flatten →
        ∃ req', (parseRequest net).calls = [some req'] ∧ ∀ hName,
          req'.getHeaders hName = req.headersSent [] ops (headerKey hName) ∧
          req'.getHeader hName = (req.headersSent [] ops (headerKey hName)).head?) ∧
    ∀ (res : Response) (ops : List MessageOp) (net : Net), res.PlainVersion →
      res.toPackage.Unsent → res.toPackage.Readable res.stockBody ops →
      net.buf.length ≤ maxRead →
      net.remaining = ((Message.response res).sent ops).flatten →
        ∃ res', (parseResponse net).calls = [some res'] ∧ ∀ hName,
          res'.getHeaders hName = res.headersSent res.stockBody ops (headerKey hName) ∧
          res'.getHeader hName =
            (res.headersSent res.stockBody ops (headerKey hName)).head? := by
  constructor
  · intro req ops net spelled plain unsent readable settled bytes
    obtain ⟨t, run, -⟩ := Request.parse_of_request spelled plain unsent readable settled
      (bytes.trans (List.append_nil _).symm) (.inl rfl)
    refine ⟨req.received ops, by rw [run], fun hName => ?_⟩
    rw [Package.getHeaders_eq, Package.getHeader_eq, Request.headerMap_received unsent.whole]
    exact ⟨rfl, rfl⟩
  · intro res ops net plain unsent readable settled bytes
    obtain ⟨t, run, -⟩ := Response.parse_of_response plain unsent readable settled
      (bytes.trans (List.append_nil _).symm) (.inl rfl)
    refine ⟨res.received ops, by rw [run], fun hName => ?_⟩
    rw [Package.getHeaders_eq, Package.getHeader_eq, Response.headerMap_received unsent.whole]
    exact ⟨rfl, rfl⟩

/-- Set twice in other spellings: the last one counts. -/
theorem headers_arrive_of_two_chunks : ∃ req',
    (parseRequest (oneRead ((Message.request (Request.search (str "/a") (str "x=1"))).sent
      Request.twoChunksOps).flatten (by decide +kernel))).calls = [some req'] ∧
      req'.getHeaders (str "HOST") = [str "b:80"] := by
  obtain ⟨req', calls, headers⟩ := headers_arrive.1 (Request.search (str "/a") (str "x=1"))
    Request.twoChunksOps _ (by decide) (by decide) ⟨rfl, rfl, rfl⟩ Request.readable_of_two_chunks
    (by exact Nat.zero_le _) ((oneRead_remaining _ (by decide +kernel)).trans
      (List.append_nil _))
  exact ⟨req', calls, (headers (str "HOST")).1.trans (by decide +kernel)⟩

end Headers

end Ahttpd

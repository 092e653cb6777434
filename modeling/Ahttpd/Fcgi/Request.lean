import Ahttpd.Fcgi.Response
import Ahttpd.Request

/-!
# Writing a FastCGI request

`fcgi` writes `FCGI_BEGIN_REQUEST`, one `FCGI_PARAMS` record for each parameter
and an empty one, the body as one `FCGI_STDIN` record and an empty one, and
then reads the response. `record` keeps only the low 16 bits of the length of
its content, so the stream is a request only if everything it passes to
`record` is short enough (`fcgi_stream_framed_iff`).
-/

namespace Ahttpd.Fcgi

open Basis

/-! ## The records `fcgi` writes -/

/-- The length in front of a name or a value: one byte, or four with the high
bit set. -/
def lengthBytes (size : Nat) : Bytes :=
  if 0xFF < size then
    [UInt8.ofNat (size >>> 24 &&& 0xFF ||| 0x80), UInt8.ofNat (size >>> 16 &&& 0xFF),
      UInt8.ofNat (size >>> 8 &&& 0xFF), UInt8.ofNat (size &&& 0xFF)]
  else [UInt8.ofNat size]

/-- `key_value`. -/
def keyValue (name value : Bytes) : Bytes :=
  lengthBytes name.length ++ lengthBytes value.length ++ name ++ value

/-- `FCGI_BeginRequestBody`. -/
def beginRequestBody : Bytes := [0, fcgiResponder, 0, 0, 0, 0, 0, 0]

/-- `begin_request`. -/
def beginRequest : Bytes :=
  [fcgiVersion1, fcgiBeginRequest, 0, fcgiNullRequestId, 0, 8, 0, 0] ++ beginRequestBody

/-- `record`. The length field has 16 bits. -/
def record (type : Byte) (content : Bytes) : Bytes :=
  [fcgiVersion1, type, 0, fcgiNullRequestId, UInt8.ofNat (content.length >>> 8 &&& 0xFF),
    UInt8.ofNat (content.length &&& 0xFF), 0, 0] ++ content

/-- `add_param`. -/
def addParam (param : Bytes × Bytes) : Bytes := record fcgiParams (keyValue param.1 param.2)

/-- The parameter that `add_param_if` adds, if the request has the header. -/
def paramIf (req : Request) (headerName name : String) : List (Bytes × Bytes) :=
  match req.toPackage.getHeader (str headerName) with
  | some value => [(str name, value)]
  | none => []

/-- The parameters in the order in which `fcgi` adds them. -/
def parameters (docRoot : Bytes) (req : Request) : List (Bytes × Bytes) :=
  [(str "DOCUMENT_ROOT", docRoot),
    (str "REQUEST_METHOD", req.method),
    (str "SCRIPT_FILENAME", docRoot ++ req.path),
    (str "SCRIPT_NAME", req.path),
    (str "QUERY_STRING", req.query),
    (str "SERVER_PROTOCOL", req.version),
    (str "GATEWAY_INTERFACE", str "CGI/1.1"),
    (str "SERVER_SOFTWARE", str "ahttpd"),
    (str "REQUEST_URI", req.path ++ if req.query = [] then [] else str "?" ++ req.query),
    (str "CONTENT_LENGTH", decimal req.toPackage.contentLength),
    (str "HTTP_CONTENT_LENGTH", decimal req.toPackage.contentLength)] ++
  paramIf req "Host" "HTTP_HOST" ++
  paramIf req "Cookie" "HTTP_COOKIE" ++
  paramIf req "Content-Type" "CONTENT_TYPE" ++
  paramIf req "Content-Type" "HTTP_CONTENT_TYPE" ++
  paramIf req "Accept" "HTTP_ACCEPT" ++
  paramIf req "Connection" "HTTP_CONNECTION"

/-- The messages of `fcgi` once it is connected. -/
def requestMessages (docRoot : Bytes) (req : Request) : List Bytes :=
  [beginRequest] ++ (parameters docRoot req).map addParam ++ [record fcgiParams []] ++
    (if req.body = [] then [] else [record fcgiStdin req.body]) ++ [record fcgiStdin []]

/-- `doc_root` without a slash at its end. -/
def trimSlash (docRoot : Bytes) : Bytes :=
  if docRoot.getLast? = some (byte '/') then docRoot.dropLast else docRoot

/-- What a call of `fcgi` comes to: the messages it sends, the calls of its
handler, and the response. -/
structure FcgiRun where
  sent : List Bytes
  finishes : Nat
  res : Response

/-- `fcgi`, with the connection that `asyncConnect` gives. -/
def fcgi (docRoot : Bytes) (conn : Option Net) (req : Request) (res : Response) : FcgiRun :=
  if docRoot = [] then ⟨[], 0, res.setStatus 500⟩
  else
    match conn with
    | none => ⟨[], 0, res.setStatus InternalServerError⟩
    | some net =>
        let read := readRecord res net
        ⟨requestMessages (trimSlash docRoot) req, read.finishes, read.res⟩

/-! ## Framing -/

/-- The records of a request as the other side has to see them. -/
structure Framed (docRoot : Bytes) (req : Request) (records : List Record) (stdin : List Bytes) :
    Prop where
  entries : records.map Record.entry =
    (fcgiBeginRequest, beginRequestBody) ::
      ((parameters docRoot req).map (fun p => (fcgiParams, keyValue p.1 p.2)) ++
        (fcgiParams, []) :: (stdin.map (fun content => (fcgiStdin, content)) ++ [(fcgiStdin, [])]))
  body : stdin.flatten = req.body
  nonempty : ∀ content ∈ stdin, content ≠ []

/-- A stream that a reader cuts into the records of a request. -/
def IsRequestStream (docRoot : Bytes) (req : Request) (stream : Bytes) : Prop :=
  ∃ records stdin, readRecords stream = some records ∧ Framed docRoot req records stdin

/-- Everything that becomes the content of a record has a length of 16 bits. -/
def SizesFit (docRoot : Bytes) (req : Request) : Prop :=
  (∀ p ∈ parameters docRoot req, (keyValue p.1 p.2).length ≤ 0xFFFF) ∧ req.body.length ≤ 0xFFFF

section Framing

variable {docRoot : Bytes} {req : Request} {type : Byte} {content rest : Bytes}
  {records : List Record}

theorem record_eq_bytes (type : Byte) (small : content.length ≤ 0xFFFF) :
    record type content = (Record.make type content [] small (Nat.zero_le _)).bytes := by
  have high : content.length >>> 8 &&& 0xFF = content.length / 256 := by
    rw [Nat.shiftRight_eq_div_pow]
    exact (Nat.and_two_pow_sub_one_eq_mod _ 8).trans (Nat.mod_eq_of_lt (by omega))
  have low : UInt8.ofNat (content.length &&& 0xFF) = UInt8.ofNat content.length := by
    rw [show content.length &&& 0xFF = content.length % 2 ^ 8 from
      Nat.and_two_pow_sub_one_eq_mod _ 8]
    exact UInt8.ofNat_mod_size
  unfold record
  rw [high, low, Record.bytes, Record.make]
  exact (List.append_nil _).symm

theorem entry_make (small : content.length ≤ 0xFFFF) :
    (Record.make type content [] small (Nat.zero_le _)).entry = (type, content) := rfl

theorem beginRequest_eq_record : beginRequest = record fcgiBeginRequest beginRequestBody := by
  decide

/-- The length that the header of a record gives. -/
theorem ofBytes_record (type : Byte) (content rest : Bytes) :
    (FcgiHeader.ofBytes (record type content ++ rest)).contentLength =
      content.length % 0x10000 := by
  have high : content.length >>> 8 &&& 0xFF = content.length / 256 % 256 := by
    rw [Nat.shiftRight_eq_div_pow]
    exact Nat.and_two_pow_sub_one_eq_mod _ 8
  have low : content.length &&& 0xFF = content.length % 256 := Nat.and_two_pow_sub_one_eq_mod _ 8
  have header : (FcgiHeader.ofBytes (record type content ++ rest)).contentLength =
      (UInt8.ofNat (content.length >>> 8 &&& 0xFF)).toNat * 256 +
        (UInt8.ofNat (content.length &&& 0xFF)).toNat := rfl
  rw [header, high, low, UInt8.toNat_ofNat', UInt8.toNat_ofNat']
  omega

theorem length_record (type : Byte) (content : Bytes) :
    (record type content).length = headerSize + content.length := by
  rw [record, List.length_append]
  rfl

/-- A reader that finds the whole content of a record at its front finds that
it has a length of 16 bits, and goes on behind it. -/
theorem of_record_eq_bytes {r : Record} {records : List Record}
    (stream : record type content ++ rest = (r :: records).flatMap Record.bytes)
    (whole : r.content = content) :
    content.length ≤ 0xFFFF ∧ rest = records.flatMap Record.bytes := by
  rw [List.flatMap_cons] at stream
  have header : FcgiHeader.ofBytes (record type content ++ rest) = r.header := by
    rw [stream, Record.bytes, List.append_assoc, List.append_assoc, FcgiHeader.ofBytes_bytes]
  have length : content.length = content.length % 0x10000 := by
    rw [← ofBytes_record type content rest, header, ← r.content_length, whole]
  have small : content.length ≤ 0xFFFF := by omega
  have padding : r.padding = [] := by
    have none : r.header.paddingLength = 0 := by
      rw [← header]
      rfl
    apply List.length_eq_zero_iff.mp
    rw [r.padding_length, none]
    rfl
  refine ⟨small, ?_⟩
  have size : (record type content).length = r.bytes.length := by
    rw [Record.length_bytes, whole, padding, length_record]
    rfl
  exact List.append_inj_right stream size

/-- Contents that are short enough become records one by one. -/
theorem exists_records {entries : List (Byte × Bytes)}
    (small : ∀ e ∈ entries, e.2.length ≤ 0xFFFF) :
    ∃ records : List Record, records.map Record.entry = entries ∧
      entries.flatMap (fun e => record e.1 e.2) = records.flatMap Record.bytes := by
  induction entries with
  | nil => exact ⟨[], rfl, rfl⟩
  | cons e entries ih =>
      rcases List.forall_mem_cons.mp small with ⟨first, later⟩
      obtain ⟨records, isEntries, stream⟩ := ih later
      refine ⟨.make e.1 e.2 [] first (Nat.zero_le _) :: records, ?_, ?_⟩
      · rw [List.map_cons, entry_make, isEntries]
      · rw [List.flatMap_cons, List.flatMap_cons, record_eq_bytes e.1 first, stream]

/-- A reader that finds the contents in front of a stream finds that they are
short enough. -/
theorem of_entries {entries more : List (Byte × Bytes)}
    (stream : entries.flatMap (fun e => record e.1 e.2) ++ rest = records.flatMap Record.bytes)
    (found : records.map Record.entry = entries ++ more) :
    (∀ e ∈ entries, e.2.length ≤ 0xFFFF) ∧
      ∃ later : List Record, rest = later.flatMap Record.bytes ∧ later.map Record.entry = more := by
  induction entries generalizing records with
  | nil => exact ⟨fun _ member => absurd member List.not_mem_nil, records, stream, found⟩
  | cons e entries ih =>
      rcases List.map_eq_cons_iff.mp found with ⟨r, records, rfl, isEntry, found⟩
      rw [List.flatMap_cons, List.append_assoc] at stream
      rcases of_record_eq_bytes stream (congrArg Prod.snd isEntry) with ⟨small, stream⟩
      obtain ⟨all, later⟩ := ih stream found
      exact ⟨List.forall_mem_cons.mpr ⟨small, all⟩, later⟩

theorem length_flatMap_bytes (records : List Record) :
    headerSize * records.length + ((records.map Record.entry).flatMap (·.2)).length ≤
      (records.flatMap Record.bytes).length := by
  induction records with
  | nil => exact Nat.le_refl _
  | cons r records ih =>
      have content : r.entry.2.length = r.content.length := rfl
      simp only [List.length_cons, List.map_cons, List.flatMap_cons, List.length_append,
        Record.length_bytes] at ih ⊢
      unfold headerSize at *
      omega

/-- A body in one record that a reader cuts into the records of that body is
short enough: more records would be longer than the stream. -/
theorem body_of_stdin {body : Bytes} {stdin : List Bytes} (nonempty : body ≠ [])
    (stream : record fcgiStdin body ++ record fcgiStdin [] = records.flatMap Record.bytes)
    (found : records.map Record.entry =
      stdin.map (fun content => (fcgiStdin, content)) ++ [(fcgiStdin, [])])
    (isBody : stdin.flatten = body) : body.length ≤ 0xFFFF := by
  have bound := length_flatMap_bytes records
  have contents : (records.map Record.entry).flatMap (·.2) = body := by
    rw [found, List.flatMap_append, List.flatMap_map, ← isBody]
    simp
  have count : records.length = stdin.length + 1 := by
    have lengths := congrArg List.length found
    simpa using lengths
  rw [← stream, contents, count, List.length_append, length_record, length_record] at bound
  match stdin with
  | [] => exact absurd isBody.symm nonempty
  | [content] =>
      rcases List.map_eq_cons_iff.mp found with ⟨r, records, rfl, isEntry, -⟩
      have whole : r.content = body := by
        rw [← isBody, List.flatten_singleton]
        exact congrArg Prod.snd isEntry
      exact (of_record_eq_bytes stream whole).1
  | _ :: _ :: _ =>
      unfold headerSize at bound
      simp only [List.length_cons, List.length_nil] at bound
      omega

/-! ## Requests -/

/-- The records in front of the body. -/
def headEntries (docRoot : Bytes) (req : Request) : List (Byte × Bytes) :=
  (fcgiBeginRequest, beginRequestBody) ::
    ((parameters docRoot req).map (fun p => (fcgiParams, keyValue p.1 p.2)) ++ [(fcgiParams, [])])

theorem requestMessages_flatten (docRoot : Bytes) (req : Request) :
    (requestMessages docRoot req).flatten =
      (headEntries docRoot req).flatMap (fun e => record e.1 e.2) ++
        ((if req.body = [] then [] else record fcgiStdin req.body) ++ record fcgiStdin []) := by
  have params : ((parameters docRoot req).map addParam).flatten =
      ((parameters docRoot req).map fun p => (fcgiParams, keyValue p.1 p.2)).flatMap
        (fun e => record e.1 e.2) := by
    rw [List.flatMap_map]
    rfl
  have body : (if req.body = [] then [] else [record fcgiStdin req.body]).flatten =
      if req.body = [] then [] else record fcgiStdin req.body := by
    split
    · rfl
    · exact List.flatten_singleton
  simp only [requestMessages, headEntries, List.flatten_append, List.flatten_singleton, params,
    body, List.flatMap_cons, List.flatMap_append, List.flatMap_nil, List.nil_append,
    List.append_assoc, beginRequest_eq_record]

theorem framed_of_sizesFit (fits : SizesFit docRoot req) :
    IsRequestStream docRoot req (requestMessages docRoot req).flatten := by
  obtain ⟨params, body⟩ := fits
  have head : ∀ e ∈ headEntries docRoot req, e.2.length ≤ 0xFFFF := by
    intro e member
    rcases List.mem_cons.mp member with rfl | member
    · decide
    · rcases List.mem_append.mp member with isParam | isEnd
      · rcases List.mem_map.mp isParam with ⟨p, added, rfl⟩
        exact params p added
      · rw [List.mem_singleton.mp isEnd]
        decide
  obtain ⟨stdin, isStdin⟩ : ∃ stdin, stdin = if req.body = [] then [] else [req.body] := ⟨_, rfl⟩
  have tail : ∀ e ∈ stdin.map (fun content => (fcgiStdin, content)) ++ [(fcgiStdin, [])],
      e.2.length ≤ 0xFFFF := by
    intro e member
    rcases List.mem_append.mp member with isBody | isEnd
    · rcases List.mem_map.mp isBody with ⟨content, isContent, rfl⟩
      rw [isStdin] at isContent
      split at isContent
      · exact absurd isContent List.not_mem_nil
      · rw [List.mem_singleton.mp isContent]
        exact body
    · rw [List.mem_singleton.mp isEnd]
      decide
  obtain ⟨records, entries, stream⟩ :=
    exists_records (List.forall_mem_append.mpr ⟨head, tail⟩)
  refine ⟨records, stdin, readRecords_eq_some.mpr ?_, ?_, ?_, ?_⟩
  · rw [← stream, requestMessages_flatten, List.flatMap_append, isStdin]
    split <;> simp
  · rw [entries, headEntries]
    simp
  · rw [isStdin]
    split
    · rename_i empty
      rw [empty]
      rfl
    · exact List.flatten_singleton
  · intro content member
    rw [isStdin] at member
    split at member
    · exact absurd member List.not_mem_nil
    · rename_i nonempty
      rw [List.mem_singleton.mp member]
      exact nonempty

theorem sizesFit_of_framed
    (framed : IsRequestStream docRoot req (requestMessages docRoot req).flatten) :
    SizesFit docRoot req := by
  obtain ⟨records, stdin, read, ⟨entries, isBody, -⟩⟩ := framed
  have stream := readRecords_eq_some.mp read
  rw [requestMessages_flatten] at stream
  have split : records.map Record.entry = headEntries docRoot req ++
      (stdin.map (fun content => (fcgiStdin, content)) ++ [(fcgiStdin, [])]) := by
    rw [entries, headEntries]
    simp
  rcases of_entries stream split with ⟨head, later, stream, found⟩
  constructor
  · intro p added
    apply head (fcgiParams, keyValue p.1 p.2)
    apply List.mem_cons_of_mem
    exact List.mem_append_left _ (List.mem_map_of_mem added)
  · by_cases empty : req.body = []
    · rw [empty]
      exact Nat.zero_le _
    · rw [if_neg empty] at stream
      exact body_of_stdin empty stream found isBody

end Framing

/-- **Framing of a FastCGI request.** What a connected `fcgi` writes is cut by
a reader into the records of the request exactly when every parameter and the
body have a length of 16 bits. -/
theorem fcgi_stream_framed_iff {docRoot : Bytes} (nonempty : docRoot ≠ []) (req : Request)
    (res : Response) (net : Net) :
    IsRequestStream (trimSlash docRoot) req (fcgi docRoot (some net) req res).sent.flatten ↔
      SizesFit (trimSlash docRoot) req := by
  have sent : (fcgi docRoot (some net) req res).sent = requestMessages (trimSlash docRoot) req := by
    rw [fcgi, if_neg nonempty]
  rw [sent]
  exact ⟨sizesFit_of_framed, framed_of_sizesFit⟩

/-- A request without a body. -/
def plainRequest : Request :=
  { method := str "GET", path := str "/a.php", version := str "HTTP/1.1" }

/-- A form that is sent with a cookie. -/
def formRequest : Request :=
  { plainRequest with
    method := str "POST"
    headers := [⟨str "Host", str "h"⟩, ⟨str "Cookie", str "k=v"⟩]
    body := str "name=value" }

theorem formRequest_fits : SizesFit (trimSlash (str "/srv/")) formRequest := by
  unfold SizesFit
  decide +kernel

theorem fcgi_stream_framed_of_formRequest :
    formRequest.body ≠ [] ∧ (str "HTTP_COOKIE", str "k=v") ∈ parameters (str "/srv") formRequest ∧
      IsRequestStream (trimSlash (str "/srv/")) formRequest
        (fcgi (str "/srv/") (some ⟨[], [], nofun, true⟩) formRequest {}).sent.flatten :=
  ⟨by decide, by decide, (fcgi_stream_framed_iff (by decide) formRequest {}
    ⟨[], [], nofun, true⟩).mpr formRequest_fits⟩

/-- An upload of 65536 bytes. -/
def largeUpload : Request := { plainRequest with body := List.replicate 0x10000 0 }

/-- The record of an upload of 65536 bytes says that it is empty. -/
theorem largeUpload_is_not_framed :
    ¬ IsRequestStream (trimSlash (str "/srv/")) largeUpload
      (fcgi (str "/srv/") (some ⟨[], [], nofun, true⟩) largeUpload {}).sent.flatten := by
  intro framed
  have sent : (fcgi (str "/srv/") (some ⟨[], [], nofun, true⟩) largeUpload {}).sent =
      requestMessages (trimSlash (str "/srv/")) largeUpload := by
    rw [fcgi, if_neg (by decide)]
  rw [sent] at framed
  have small : largeUpload.body.length ≤ 0xFFFF := (sizesFit_of_framed framed).2
  rw [largeUpload, List.length_replicate] at small
  omega

end Ahttpd.Fcgi

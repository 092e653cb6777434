import Ahttpd.ChunkGrammar

/-!
# From the writers to the parser

What a request or a response sends after any writes and flushes is parsed back
to a message with the concatenation of the writes as its body, in whatever
reads it arrives. The writers are described by `sendWith_chunked` and
`sendWith_whole`, the parser by the normal forms of the segmentation module and
by the grammar of chunked bodies; what is left is that the writers stay within
that grammar (`Chunk.ofData_bytes`) and that a length is read back as it was
written (`lexicalCast_decimal`).
-/

namespace Ahttpd

open Basis

/-! ## Sizes and lengths -/

section Numbers

variable {n : Nat}

theorem isXDigit_of_mem_hex {c : Byte} (member : c ∈ hex n) : isXDigit c = true := by
  obtain ⟨d, small, rfl⟩ := mem_render (by decide) member
  exact isXDigit_digitChar small

/-- The first digit of a number is neither a space nor a sign. -/
theorem head_of_render (n : Nat) {base : Nat} (base_gt : 1 < base) (base_le : base ≤ 16) :
    ∃ c digits, render base n = c :: digits ∧ isSpace c = false ∧ c ≠ 45 ∧ c ≠ 43 := by
  obtain ⟨c, digits, eq⟩ := List.exists_cons_of_ne_nil (render_ne_nil base n)
  obtain ⟨d, small, rfl⟩ := mem_render base_gt (eq ▸ List.mem_cons_self : c ∈ render base n)
  have all : ∀ d < 16, isSpace (digitChar d) = false ∧ digitChar d ≠ 45 ∧ digitChar d ≠ 43 := by
    decide
  exact ⟨_, digits, eq, all d (Nat.lt_of_lt_of_le small base_le)⟩

/-- A length is read back as it was written. -/
theorem lexicalCast_decimal {modulus : Nat} (small : n < modulus) :
    lexicalCastUnsigned modulus (decimal n) = some n := by
  obtain ⟨c, digits, eq, -, minus, plus⟩ :=
    head_of_render n (show 1 < 10 by decide) (by decide)
  have isDecimal : decimal n = c :: digits := eq
  have sign : takeSign (decimal n) = (false, decimal n) := by
    rw [isDecimal]
    exact takeSign_of_digit minus plus
  have value : valueOf 10 (decimal n) = n := valueOf_render (by decide) (by decide)
  have nonempty : decimal n ≠ [] := render_ne_nil 10 n
  have digits' : (decimal n).all isDigit = true :=
    List.all_eq_true.mpr fun _ member => isDigit_of_mem_decimal member
  simp only [lexicalCastUnsigned, sign, value, nonempty, digits', small, ne_eq, not_false_iff,
    and_self, if_true, negateIf, Bool.false_eq_true, if_false]

end Numbers

/-! ## Chunks -/

section Chunks

variable {net : Net} {data rest : Bytes}

/-- A size as it is written. -/
def SizeLine.ofSize (n : Nat) : SizeLine :=
  .bare (hex n) (render_ne_nil 16 n) fun _ => isXDigit_of_mem_hex

theorem SizeLine.size_ofSize (n : Nat) : (SizeLine.ofSize n).size = n :=
  valueOf_render (by decide) (by decide)

/-- A chunk as it is written. -/
def Chunk.ofData (data : Bytes) : Chunk where
  line := .ofSize data.length
  lineCr := true
  data := data
  dataCr := true
  isSize := SizeLine.size_ofSize data.length

theorem Chunk.ofData_bytes (data : Bytes) : (Chunk.ofData data).bytes = chunk data := by
  simp [Chunk.bytes, Chunk.ofData, SizeLine.ofSize, SizeLine.bare, SizeLine.text, chunk, lineEnd,
    carriage]

theorem Chunk.ofData_fits (small : data.length ≤ stackBuffSize) : (Chunk.ofData data).Fits :=
  ⟨small, by simp [Chunk.ofData, SizeLine.ofSize, SizeLine.bare, carriage]⟩

/-- The chunks of a flushed body. -/
theorem flatMap_ofData (segments : List Bytes) :
    ((segments.filter (· ≠ [])).map Chunk.ofData).flatMap Chunk.bytes =
      segments.flatMap Package.chunkUnlessEmpty := by
  induction segments with
  | nil => rfl
  | cons segment segments ih =>
      rw [List.flatMap_cons, Package.chunkUnlessEmpty, ← ih]
      by_cases empty : segment = []
      · rw [if_pos empty, List.filter_cons_of_neg (by simp [empty]), List.nil_append]
      · rw [if_neg empty, List.filter_cons_of_pos (by simp [empty]), List.map_cons,
          List.flatMap_cons, Chunk.ofData_bytes]

theorem flatMap_data_ofData (segments : List Bytes) :
    ((segments.filter (· ≠ [])).map Chunk.ofData).flatMap Chunk.data = segments.flatten := by
  induction segments with
  | nil => rfl
  | cons segment segments ih =>
      rw [List.flatten_cons, ← ih]
      by_cases empty : segment = []
      · rw [List.filter_cons_of_neg (by simp [empty]), empty, List.nil_append]
      · rw [List.filter_cons_of_pos (by simp [empty]), List.map_cons, List.flatMap_cons]
        rfl

theorem readChunkedBody_of_chunks {pac : Package} {segments : List Bytes}
    (connected : pac.connected = true)
    (settled : net.buf.length ≤ maxRead)
    (small : ∀ segment ∈ segments, segment.length ≤ stackBuffSize)
    (bytes : net.remaining = segments.flatMap Package.chunkUnlessEmpty ++ lastChunk ++ rest) :
    ∃ t, readChunkedBody pac net = ⟨[some (pac.write segments.flatten)], t, .finished⟩ ∧
      Takes net rest t := by
  have nonempty : ∀ c ∈ (segments.filter (· ≠ [])).map Chunk.ofData, c.data ≠ [] := by
    intro c member
    rcases List.mem_map.mp member with ⟨segment, kept, rfl⟩
    exact of_decide_eq_true (List.mem_filter.mp kept).2
  have fits : ∀ c ∈ (segments.filter (· ≠ [])).map Chunk.ofData, c.Fits := by
    intro c member
    rcases List.mem_map.mp member with ⟨segment, kept, rfl⟩
    exact Chunk.ofData_fits (small segment (List.mem_filter.mp kept).1)
  have isText : net.remaining = ChunkedText.bytes ⟨_, .zero, nonempty, rfl⟩ ++ rest := by
    rw [bytes, ChunkedText.bytes, flatMap_ofData]
    rfl
  obtain ⟨t, run, takes⟩ := readChunkedBody_of_text connected settled fits Chunk.zero_fits isText
  rw [ChunkedText.data, flatMap_data_ofData] at run
  exact ⟨t, run, takes⟩

end Chunks

/-! ## Messages -/

/-- The first line of a message is one line, and its reader accepts it. -/
def Accepted {π : Type} (D : Dialect π) (firstLine : Bytes) : Prop :=
  ∃ line pac, firstLine = line ++ [LF] ∧ LF ∉ line ∧ D.firstLine D.fresh line = .ok (some pac)

/-- The limits of the reader: a chunk has at most `STACK_BUFF_SIZE` bytes, and
a body with a length fits an `int`. -/
def Fits (ops : List BodyOp) : Prop :=
  if .flush ∈ ops then ∀ segment ∈ BodyOp.segments [] ops, segment.length ≤ stackBuffSize
  else (BodyOp.written ops).length < 2 ^ 31

instance (ops : List BodyOp) : Decidable (Fits ops) :=
  inferInstanceAs (Decidable (if .flush ∈ ops then
    ∀ segment ∈ BodyOp.segments [] ops, segment.length ≤ stackBuffSize
    else (BodyOp.written ops).length < 2 ^ 31))

/-- The header that announces the body. -/
def framingHeaders (ops : List BodyOp) : List Header :=
  if .flush ∈ ops then Package.chunkedHeaders
  else [⟨str "Content-Length", decimal (BodyOp.written ops).length⟩]

/-- The body as it is sent. -/
def framedBody (ops : List BodyOp) : Bytes :=
  if .flush ∈ ops then
    (BodyOp.segments [] ops).flatMap Package.chunkUnlessEmpty ++ lastChunk
  else BodyOp.written ops

section Messages

variable {π : Type} {D : Dialect π} {net : Net} {firstLine rest : Bytes} {ops : List BodyOp}
  {headers : List Header}

/-- A message up to its body. -/
theorem reachesBody_of_head (accepted : Accepted D firstLine)
    (wellFormed : ∀ h ∈ headers, h.WellFormed ∧ ¬ colonSpace <:+: h.value)
    (bytes : net.remaining = firstLine ++ headerBlock headers ++ rest) :
    ∃ pac t, ReachesBody D net pac t ∧ D.package pac = { headers } ∧ Takes net rest t := by
  obtain ⟨line, first, rfl, oneLine, accepts⟩ := accepted
  have isLine : net.remaining = line ++ LF :: (headerBlock headers ++ rest) := by
    rw [bytes]
    simp
  obtain ⟨t', read, takes⟩ := readLine_of_line oneLine isLine
  have isFirst : parseFirstLine (D.firstLine D.fresh) net = .handle (some first) t' := by
    rw [parseFirstLine_of_line read, accepts]
  obtain ⟨t, read', takes'⟩ := parseHeaders_of_headerBlock {}
    (fun h member => (wellFormed h member).1) takes.remaining
  have same : headers.map Header.readBack = headers :=
    (List.map_congr_left fun h member =>
      (readBack_eq_self_iff (wellFormed h member).1).mpr (wellFormed h member).2).trans
      (List.map_id _)
  rw [same, List.nil_append] at read'
  refine ⟨_, t, ⟨first, t', isFirst, _, read', rfl⟩, ?_, takes.trans takes'⟩
  rw [D.package_parseCookie, D.package_withPackage]

/-- A flushed body is read back. -/
theorem parse_of_chunked (accepted : Accepted D firstLine) (settled : net.buf.length ≤ maxRead)
    {segments : List Bytes} (small : ∀ segment ∈ segments, segment.length ≤ stackBuffSize)
    (bytes : net.remaining = firstLine ++ headerBlock Package.chunkedHeaders ++
      (segments.flatMap Package.chunkUnlessEmpty ++ lastChunk)) :
    ∃ pac t, parse D net = ⟨[some pac], t, .finished⟩ ∧
      (D.package pac).body = segments.flatten ∧ t.remaining = [] := by
  obtain ⟨pac, t, reaches, isPackage, takes⟩ := reachesBody_of_head accepted
    (List.forall_mem_singleton.mpr ⟨transferEncoding_wellFormed, fun occurs =>
      absurd (occurs.subset List.mem_cons_self) (by decide)⟩) bytes
  have selects : SelectsChunked (D.package pac) := isPackage ▸ ⟨rfl, str "chunked", rfl, rfl⟩
  have connected : (D.package pac).connected = true := by rw [isPackage]
  obtain ⟨u, run, takes'⟩ := readChunkedBody_of_chunks connected
    (takes.settled settled) small (takes.remaining.trans (List.append_nil _).symm)
  refine ⟨D.withPackage pac ((D.package pac).write segments.flatten), u, ?_, ?_, takes'.remaining⟩
  · rw [reaches.parse_eq, parseBody_of_chunked selects, run]
    rfl
  · rw [D.package_withPackage, Package.write_body, isPackage]
    rfl

/-- A body with a length is read back. -/
theorem parse_of_length (accepted : Accepted D firstLine) {body : Bytes}
    (small : body.length < 2 ^ 31)
    (bytes : net.remaining = firstLine ++
      headerBlock [⟨str "Content-Length", decimal body.length⟩] ++ body) :
    ∃ pac t, parse D net = ⟨[some pac], t, .finished⟩ ∧ (D.package pac).body = body ∧
      t.remaining = [] := by
  obtain ⟨pac, t, reaches, isPackage, takes⟩ := reachesBody_of_head accepted
    (List.forall_mem_singleton.mpr ⟨contentLength_wellFormed _, fun occurs =>
      absurd (isDigit_of_mem_decimal (occurs.subset List.mem_cons_self)) (by decide)⟩) bytes
  have isLength :
      (D.package pac).getHeader (str "Content-Length") = some (decimal body.length) := by
    rw [isPackage]
    rfl
  have cast : lexicalCastUnsigned (2 ^ 64) (decimal body.length) = some body.length :=
    lexicalCast_decimal (by omega)
  rw [reaches.parse_eq]
  cases size : body.length with
  | zero =>
      have empty := List.length_eq_zero_iff.mp size
      rw [size] at isLength cast
      refine ⟨D.withPackage pac (D.package pac), t, ?_, ?_, takes.remaining.trans empty⟩
      · simp only [parseBody, isLength, cast]
        rfl
      · rw [D.package_withPackage, isPackage, empty]
  | succ n =>
      have exact' : toInt32 (body.length : Nat) = (body.length : Nat) :=
        toInt32_eq (by omega) (by omega)
      have buffered : t.buf.length ≤ body.length := by
        rw [← takes.remaining, Segmented.remaining, List.length_append]
        omega
      have fits : LengthFits body.length t := ⟨fun _ => by omega, fun _ => by omega⟩
      obtain ⟨u, run, takes'⟩ := readLengthBody_of_whole (D.package pac) fits exact'
        (Nat.le_of_eq (congrArg List.length takes.remaining.symm))
      rw [takes.remaining, List.drop_length] at takes'
      rw [takes.remaining, List.take_length, size] at run
      rw [size] at isLength cast
      refine ⟨D.withPackage pac ((D.package pac).write body), u, ?_, ?_, takes'.remaining⟩
      · simp only [parseBody, isLength, cast, run]
        rfl
      · rw [D.package_withPackage, Package.write_body, isPackage]
        rfl

/-- What any writes and flushes send is one first line, one header block and
the framed body, and is read back as the concatenation of the writes. -/
theorem roundTrip_of_sendWith (accepted : Accepted D firstLine) (fits : Fits ops) :
    (Package.sendWith firstLine [] {} ops).flatten =
        firstLine ++ headerBlock (framingHeaders ops) ++ framedBody ops ∧
      ∀ net : Net, net.buf.length ≤ maxRead →
        net.remaining = (Package.sendWith firstLine [] {} ops).flatten →
        ∃ pac t, parse D net = ⟨[some pac], t, .finished⟩ ∧
          (D.package pac).body = BodyOp.written ops ∧ t.remaining = [] := by
  by_cases flushed : BodyOp.flush ∈ ops
  · have sent := Package.sendWith_chunked firstLine [] {} rfl rfl rfl rfl flushed
    rw [Fits, if_pos flushed] at fits
    refine ⟨by rw [sent, framingHeaders, framedBody, if_pos flushed, if_pos flushed], ?_⟩
    intro net settled bytes
    obtain ⟨pac, t, run, body, rest⟩ := parse_of_chunked accepted settled fits (bytes.trans sent)
    refine ⟨pac, t, run, ?_, rest⟩
    rw [body, BodyOp.flatten_segments, List.nil_append]
  · have isBody : BodyOp.written ops =
        if ([] : Bytes) ++ BodyOp.written ops = [] then [] else [] ++ BodyOp.written ops := by
      simp
    have sent := Package.sendWith_whole firstLine [] {} rfl rfl rfl rfl flushed isBody
    rw [Fits, if_neg flushed] at fits
    refine ⟨by rw [sent, framingHeaders, framedBody, if_neg flushed, if_neg flushed], ?_⟩
    intro net _ bytes
    exact parse_of_length accepted fits (bytes.trans sent)

end Messages

/-- **Body round trip.** Take a request, or a response with status 200, without
headers or a body, whose first line the reader accepts. Whatever is written and
flushed, up to the limits of the reader, it sends one first line, one header
block and the framed body; and however that is cut into reads, the parser
delivers one message whose body is the concatenation of the writes, and leaves
nothing. -/
theorem body_round_trip :
    (∀ (req : Request) (ops : List BodyOp), req.toPackage = {} →
      Accepted requestDialect req.firstLine → Fits ops →
        (req.send ops).flatten =
            req.firstLine ++ headerBlock (framingHeaders ops) ++ framedBody ops ∧
          ∀ net : Net, net.buf.length ≤ maxRead → net.remaining = (req.send ops).flatten →
            ∃ req' t, parseRequest net = ⟨[some req'], t, .finished⟩ ∧
              req'.body = BodyOp.written ops ∧ t.remaining = []) ∧
      ∀ (res : Response) (ops : List BodyOp), res.toPackage = {} → res.status = Ok →
        Accepted responseDialect res.firstLine → Fits ops →
          (res.send ops).flatten =
              res.firstLine ++ headerBlock (framingHeaders ops) ++ framedBody ops ∧
            ∀ net : Net, net.buf.length ≤ maxRead → net.remaining = (res.send ops).flatten →
              ∃ res' t, parseResponse net = ⟨[some res'], t, .finished⟩ ∧
                res'.body = BodyOp.written ops ∧ t.remaining = [] := by
  constructor
  · intro req ops fresh accepted fits
    rw [Request.send_eq, fresh]
    exact roundTrip_of_sendWith accepted fits
  · intro res ops fresh isOk accepted fits
    have stock : res.stockBody = [] := if_pos isOk
    rw [Response.send_eq, fresh, stock]
    exact roundTrip_of_sendWith accepted fits

/-- A response without a version or without a message sends a first line that
the reader accepts. -/
theorem accepted_of_stock_line {res : Response} (isOk : res.status = Ok)
    (stock : res.msg = [] ∨ res.version = []) : Accepted responseDialect res.firstLine := by
  have line : res.firstLine = statusHead Ok ++ CRLF := by
    rw [Response.firstLine, if_pos (or_assoc.mp (.inl stock)), isOk]
  rw [line]
  exact ⟨str "HTTP/1.1 200 OK\r", _, rfl, by decide, rfl⟩

section Examples

def getRequest : Request where
  method := str "GET"
  path := str "/"
  version := str "HTTP/1.1"

/-- Two chunks, and a flush with nothing to send. -/
def twoChunks : List BodyOp := [.write (str "ab"), .flush, .flush, .write (str "c")]

theorem body_round_trip_of_two_chunks :
    (∃ req t, parseRequest (oneRead (getRequest.send twoChunks).flatten (by decide)) =
        ⟨[some req], t, .finished⟩ ∧ req.body = str "abc" ∧ t.remaining = []) ∧
      ∃ res t, parseResponse (oneRead (Response.send {} twoChunks).flatten (by decide)) =
        ⟨[some res], t, .finished⟩ ∧ res.body = str "abc" ∧ t.remaining = [] :=
  ⟨(body_round_trip.1 getRequest twoChunks rfl
      ⟨str "GET / HTTP/1.1\r", _, rfl, by decide, rfl⟩ (by decide)).2 _ (by decide)
      (by simp [oneRead, Segmented.remaining]),
    (body_round_trip.2 {} twoChunks rfl rfl (accepted_of_stock_line rfl (.inl rfl))
      (by decide)).2 _ (by decide) (by simp [oneRead, Segmented.remaining])⟩

/-- A request without a method, a path and a version is sent all the same, and
its reader rejects the first line. -/
theorem empty_request_is_rejected :
    (Request.toPackage {} = {} ∧ Fits []) ∧
      (parseRequest (oneRead (Request.send {} []).flatten (by decide))).calls = [none] :=
  ⟨⟨rfl, by decide⟩, by decide +kernel⟩

end Examples

end Ahttpd

import Ahttpd.Package

/-!
# Writing a body

`Request::flush` and `Response::flush` differ in the first line only, and so do
the two destructors up to the stock reply. `flushWith` and `destroyWith` are
what they share. `messagesWith_flatten` gives the bytes that any sequence of
operations sends, followed by the destruction; `sendWith_chunked` and
`sendWith_whole` are the cases without headers set by user code.
-/

namespace Ahttpd

/-- What user code does to the body of a package. -/
inductive BodyOp
  | write (data : Bytes)
  | flush
  deriving DecidableEq

namespace BodyOp

/-- The bytes written between two flushes, what is pending in front. The last
entry is what is left for the destructor. -/
def segments : Bytes → List BodyOp → List Bytes
  | pending, [] => [pending]
  | pending, write data :: ops => segments (pending ++ data) ops
  | pending, flush :: ops => pending :: segments [] ops

/-- All bytes written. -/
def written (ops : List BodyOp) : Bytes :=
  ops.flatMap fun
    | write data => data
    | flush => []

theorem flatten_segments (pending : Bytes) (ops : List BodyOp) :
    (segments pending ops).flatten = pending ++ written ops := by
  induction ops generalizing pending with
  | nil => rfl
  | cons op ops ih =>
      cases op with
      | write data => rw [segments, ih, List.append_assoc]; rfl
      | flush => rw [segments, List.flatten_cons, ih, List.nil_append]; rfl

end BodyOp

/-- What user code does to a message: to its body and to its headers. -/
inductive MessageOp
  | write (data : Bytes)
  | addHeader (hName hValue : Bytes)
  | setHeader (hName hValue : Bytes)
  | delHeader (hName : Bytes)
  | flush
  deriving DecidableEq

/-- The operations on the body. -/
def MessageOp.bodyOps : List MessageOp → List BodyOp
  | [] => []
  | write data :: ops => .write data :: bodyOps ops
  | flush :: ops => .flush :: bodyOps ops
  | _ :: ops => bodyOps ops

namespace BodyOp

def toMessageOp : BodyOp → MessageOp
  | write data => .write data
  | flush => .flush

theorem bodyOps_toMessageOp (ops : List BodyOp) :
    MessageOp.bodyOps (ops.map toMessageOp) = ops := by
  induction ops with
  | nil => rfl
  | cons op ops ih => cases op <;> exact congrArg _ ih

theorem flush_mem_toMessageOp {ops : List BodyOp} :
    MessageOp.flush ∈ ops.map toMessageOp ↔ flush ∈ ops := by
  constructor
  · intro member
    rcases List.mem_map.mp member with ⟨op, isOp, same⟩
    cases op with
    | write => cases same
    | flush => exact isOp
  · intro member
    exact List.mem_map.mpr ⟨flush, member, rfl⟩

end BodyOp

namespace Package

/-- What the `flush` of a request and of a response share. -/
def flushWith (firstLine : Bytes) (p : Package) : Package × List Bytes :=
  if !p.connected then (p, [])
  else
    -- a package that is not chunked is flushed for the first time
    let (p, first) := if p.chunked then (p, []) else (p.setChunked, [firstLine])
    let (p, message) := p.flushPackage
    (p, first ++ [message])

/-- What the destructors share. The stock reply stands in for a missing body. -/
def destroyWith (firstLine stock : Bytes) (p : Package) : List Bytes :=
  if !p.connected then []
  else if p.chunked then
    let (p, message) := p.flushPackage
    [message, lastChunk, p.flushPackage.2]
  else
    let p := if p.body = [] then p.write stock else p
    [firstLine, p.flushPackage.2]

/-- All messages of a package that goes through `ops` and is then destroyed. -/
def sendWith (firstLine stock : Bytes) : Package → List BodyOp → List Bytes
  | p, [] => p.destroyWith firstLine stock
  | p, .write data :: ops => sendWith firstLine stock (p.write data) ops
  | p, .flush :: ops =>
      let (p, sent) := p.flushWith firstLine
      sent ++ sendWith firstLine stock p ops

/-- A chunk, unless there is nothing to send: an empty one would end the
body. -/
def chunkUnlessEmpty (data : Bytes) : Bytes := if data = [] then [] else chunk data

/-- A package whose header block is out and whose body is sent. -/
def drained (headers : List Header) (p : Package) : Package :=
  { p with chunked := true, sendStarted := true, headers, body := [] }

/-- The header block of a chunked package. -/
def chunkedHeaders : List Header := [⟨str "Transfer-Encoding", str "chunked"⟩]

/-- The package with the stock reply in the place of a missing body. -/
def stocked (stock : Bytes) (p : Package) : Package := if p.body = [] then p.write stock else p

/-- An operation that does not send. -/
def edit (p : Package) : MessageOp → Package
  | .write data => p.write data
  | .addHeader hName hValue => p.addHeader hName hValue
  | .setHeader hName hValue => p.setHeader hName hValue
  | .delHeader hName => p.delHeader hName
  | .flush => p

/-- All messages of a package that goes through `ops` and is then destroyed. -/
def messagesWith (firstLine stock : Bytes) : Package → List MessageOp → List Bytes
  | p, [] => p.destroyWith firstLine stock
  | p, .flush :: ops =>
      let (p, sent) := p.flushWith firstLine
      sent ++ messagesWith firstLine stock p ops
  | p, op :: ops => messagesWith firstLine stock (p.edit op) ops

/-- The package as it is when its header block goes out, at the first flush or
at its end, but without the framing header. -/
def atBlock (stock : Bytes) : Package → List MessageOp → Package
  | p, [] => p.stocked stock
  | p, .flush :: _ => p.setChunked
  | p, op :: ops => atBlock stock (p.edit op) ops

/-- The body as it is sent. -/
def bodySent (stock : Bytes) (p : Package) (ops : List MessageOp) : Bytes :=
  if .flush ∈ ops then
    (BodyOp.segments p.body (MessageOp.bodyOps ops)).flatMap chunkUnlessEmpty ++ lastChunk
  else (p.atBlock stock ops).body

section Send

variable {firstLine stock : Bytes} {p : Package} {ops : List BodyOp} {headers : List Header}

@[simp] theorem drained_body : (p.drained headers).body = [] := rfl

/-- A package whose header block is out sends chunks. -/
theorem flushPackage_of_started (chunked : p.chunked = true) (started : p.sendStarted = true) :
    p.flushPackage = (p.drained p.headers, chunkUnlessEmpty p.body) := by
  have fst := p.flushPackage_fst
  have snd := p.flushPackage_snd
  rw [if_pos started] at fst snd
  rw [List.nil_append] at snd
  rw [← Prod.mk.eta (p := p.flushPackage), fst, snd, if_pos chunked]
  simp only [drained, chunked, chunkUnlessEmpty]

/-- The first flush sends the header block as well. -/
theorem flushPackage_of_first (started : p.sendStarted = false) (chunked : p.chunked = true) :
    p.flushPackage = (p.drained p.frame.headers,
      headerBlock p.frame.headers ++ chunkUnlessEmpty p.body) := by
  have fst := p.flushPackage_fst
  have snd := p.flushPackage_snd
  rw [if_neg (by simp [started])] at fst snd
  rw [← Prod.mk.eta (p := p.flushPackage), fst, snd, if_pos chunked]
  simp only [frame_eq, drained, chunked, chunkUnlessEmpty]

theorem flushWith_of_started (connected : p.connected = true) (chunked : p.chunked = true)
    (started : p.sendStarted = true) :
    p.flushWith firstLine = (p.drained p.headers, [chunkUnlessEmpty p.body]) := by
  simp [flushWith, connected, chunked, flushPackage_of_started chunked started]

theorem flushWith_of_first (connected : p.connected = true) (whole : p.chunked = false)
    (started : p.sendStarted = false) :
    p.flushWith firstLine = (p.setChunked.drained p.setChunked.frame.headers,
      [firstLine, headerBlock p.setChunked.frame.headers ++ chunkUnlessEmpty p.body]) := by
  have first := flushPackage_of_first (p := p.setChunked) started rfl
  simp [flushWith, connected, whole, first]

/-- A package that is destroyed without a flush. -/
theorem destroyWith_of_whole (connected : p.connected = true) (whole : p.chunked = false)
    (started : p.sendStarted = false) :
    (p.destroyWith firstLine stock).flatten =
      firstLine ++ headerBlock (p.stocked stock).frame.headers ++ (p.stocked stock).body := by
  have state : (p.stocked stock).chunked = false ∧ (p.stocked stock).sendStarted = false := by
    unfold stocked
    split <;> exact ⟨whole, started⟩
  obtain ⟨whole', started'⟩ := state
  have message := (p.stocked stock).flushPackage_snd
  have sent : (if (p.stocked stock).body = [] then [] else (p.stocked stock).body) =
      (p.stocked stock).body := by
    split
    · rename_i empty
      rw [empty]
    · rfl
  simp only [started', whole', Bool.false_eq_true, if_false, sent] at message
  have isStocked : (if p.body = [] then p.write stock else p) = p.stocked stock := rfl
  rw [destroyWith, connected, whole]
  simp [isStocked, message]

/-! ## Any sequence of operations -/

/-- Editing the headers or the body changes neither the connection nor what has
been sent. -/
theorem edit_state (p : Package) (op : MessageOp) : (p.edit op).connected = p.connected ∧
    (p.edit op).chunked = p.chunked ∧ (p.edit op).sendStarted = p.sendStarted := by
  cases op <;> exact ⟨rfl, rfl, rfl⟩

theorem messagesWith_edit {op : MessageOp} (edits : op ≠ .flush) (ops : List MessageOp) :
    p.messagesWith firstLine stock (op :: ops) =
      (p.edit op).messagesWith firstLine stock ops := by
  cases op <;> first | rfl | exact absurd rfl edits

theorem atBlock_edit {op : MessageOp} (edits : op ≠ .flush) (ops : List MessageOp) :
    p.atBlock stock (op :: ops) = (p.edit op).atBlock stock ops := by
  cases op <;> first | rfl | exact absurd rfl edits

theorem segments_edit {op : MessageOp} (edits : op ≠ .flush) (ops : List MessageOp) :
    BodyOp.segments p.body (MessageOp.bodyOps (op :: ops)) =
      BodyOp.segments (p.edit op).body (MessageOp.bodyOps ops) := by
  cases op <;> first | rfl | exact absurd rfl edits

/-- Once a flush has been called, every later flush and the destructor send
what has been written since as one chunk. -/
theorem messagesWith_of_started {ops : List MessageOp} (connected : p.connected = true)
    (chunked : p.chunked = true) (started : p.sendStarted = true) :
    (p.messagesWith firstLine stock ops).flatten =
      (BodyOp.segments p.body (MessageOp.bodyOps ops)).flatMap chunkUnlessEmpty ++ lastChunk := by
  induction ops generalizing p with
  | nil =>
      have again := flushPackage_of_started (p := p.drained p.headers) rfl rfl
      rw [messagesWith, destroyWith, connected, chunked, flushPackage_of_started chunked started]
      simp [again, chunkUnlessEmpty, BodyOp.segments, MessageOp.bodyOps]
  | cons op ops ih =>
      by_cases flushes : op = .flush
      · have later := ih (p := p.drained p.headers) connected rfl rfl
        rw [flushes, messagesWith, flushWith_of_started connected chunked started]
        simp [later, BodyOp.segments, MessageOp.bodyOps]
      · obtain ⟨connected', chunked', started'⟩ := p.edit_state op
        rw [messagesWith_edit flushes, segments_edit flushes]
        exact ih (connected'.trans connected) (chunked'.trans chunked) (started'.trans started)

/-- **What a package sends**: the first line, one header block with the headers
it has at its first flush or at its end, and the body. -/
theorem messagesWith_flatten {ops : List MessageOp} (connected : p.connected = true)
    (whole : p.chunked = false) (started : p.sendStarted = false) :
    (p.messagesWith firstLine stock ops).flatten =
      firstLine ++ headerBlock (p.atBlock stock ops).frame.headers ++ p.bodySent stock ops := by
  induction ops generalizing p with
  | nil => exact destroyWith_of_whole connected whole started
  | cons op ops ih =>
      by_cases flushes : op = .flush
      · have later : ((p.setChunked.drained p.setChunked.frame.headers).messagesWith
            firstLine stock ops).flatten =
            (BodyOp.segments [] (MessageOp.bodyOps ops)).flatMap chunkUnlessEmpty ++ lastChunk :=
          messagesWith_of_started connected rfl rfl
        rw [flushes, messagesWith, flushWith_of_first connected whole started]
        simp [later, BodyOp.segments, bodySent, atBlock, MessageOp.bodyOps]
      · obtain ⟨connected', chunked', started'⟩ := p.edit_state op
        have flushed : MessageOp.flush ∈ op :: ops ↔ MessageOp.flush ∈ ops := by
          simp [Ne.symm flushes]
        rw [messagesWith_edit flushes, bodySent, segments_edit flushes, atBlock_edit flushes,
          ih (connected'.trans connected) (chunked'.trans whole) (started'.trans started), bodySent]
        simp only [flushed]

/-! ## Without headers of its own -/

theorem sendWith_eq (p : Package) (ops : List BodyOp) :
    p.sendWith firstLine stock ops =
      p.messagesWith firstLine stock (ops.map BodyOp.toMessageOp) := by
  induction ops generalizing p with
  | nil => rfl
  | cons op ops ih =>
      cases op with
      | write data => exact ih _
      | flush =>
          rw [sendWith, List.map_cons, BodyOp.toMessageOp, messagesWith]
          exact congrArg _ (ih _)

/-- Writing and flushing leaves the headers alone. -/
theorem atBlock_of_body (stock : Bytes) (p : Package) (ops : List BodyOp) :
    (p.atBlock stock (ops.map BodyOp.toMessageOp)).headers = p.headers ∧
      ((p.atBlock stock (ops.map BodyOp.toMessageOp)).chunked = true ↔
        p.chunked = true ∨ .flush ∈ ops) ∧
      (.flush ∉ ops → (p.atBlock stock (ops.map BodyOp.toMessageOp)).body =
        if p.body ++ BodyOp.written ops = [] then stock else p.body ++ BodyOp.written ops) := by
  induction ops generalizing p with
  | nil =>
      rw [List.map_nil, atBlock, stocked, BodyOp.written, List.flatMap_nil, List.append_nil]
      split
      · rename_i empty
        exact ⟨rfl, by simp [write], fun _ => by rw [write_body, empty, List.nil_append]⟩
      · exact ⟨rfl, by simp, fun _ => rfl⟩
  | cons op ops ih =>
      cases op with
      | write data =>
          obtain ⟨headers, chunked, body⟩ := ih (p.write data)
          have written : BodyOp.written (.write data :: ops) = data ++ BodyOp.written ops := rfl
          refine ⟨headers, chunked.trans (by simp [write]), fun unflushed => ?_⟩
          rw [written, ← List.append_assoc]
          exact body fun member => unflushed (List.mem_cons_of_mem _ member)
      | flush => exact ⟨rfl, by simp [atBlock, BodyOp.toMessageOp, setChunked], fun unflushed =>
          absurd List.mem_cons_self unflushed⟩

/-- The first line is the first message, whether a flush or the destructor sends
it. -/
theorem forall_first_message_iff (connected : p.connected = true) (whole : p.chunked = false)
    (firstLine stock : Bytes) (shows : Bytes → Prop) :
    (∀ line, (p.flushWith firstLine).2.head? = some line ∨
        (p.destroyWith firstLine stock).head? = some line → shows line) ↔ shows firstLine := by
  have flushed : (p.flushWith firstLine).2.head? = some firstLine := by
    simp [flushWith, connected, whole]
  have destroyed : (p.destroyWith firstLine stock).head? = some firstLine := by
    simp [destroyWith, connected, whole]
  rw [flushed, destroyed]
  constructor
  · intro all
    exact all firstLine (.inl rfl)
  · rintro shown line (first | first)
    · exact Option.some.inj first ▸ shown
    · exact Option.some.inj first ▸ shown

/-- **What a flushed package sends**: the first line, a header block that
announces the chunked body, and one chunk for each non-empty stretch between
flushes. -/
theorem sendWith_chunked (firstLine stock : Bytes) (p : Package)
    (connected : p.connected = true) (whole : p.chunked = false)
    (started : p.sendStarted = false) (none : p.headers = []) (flushed : BodyOp.flush ∈ ops) :
    (p.sendWith firstLine stock ops).flatten =
      firstLine ++ headerBlock chunkedHeaders ++
        ((BodyOp.segments p.body ops).flatMap chunkUnlessEmpty ++ lastChunk) := by
  obtain ⟨headers, chunked, -⟩ := p.atBlock_of_body stock ops
  rw [sendWith_eq, messagesWith_flatten connected whole started,
    frame_of_chunked (chunked.mpr (.inr flushed)), addHeader_headers, headers, none, bodySent,
    if_pos (BodyOp.flush_mem_toMessageOp.mpr flushed), BodyOp.bodyOps_toMessageOp]
  rfl

/-- **What a package sends that was never flushed**: the first line, a header
block with the length of the body, and the body. -/
theorem sendWith_whole (firstLine stock : Bytes) (p : Package)
    (connected : p.connected = true) (whole : p.chunked = false)
    (started : p.sendStarted = false) (none : p.headers = []) (unflushed : BodyOp.flush ∉ ops)
    {body : Bytes} (isBody : body = if p.body ++ BodyOp.written ops = [] then stock
      else p.body ++ BodyOp.written ops) :
    (p.sendWith firstLine stock ops).flatten =
      firstLine ++ headerBlock [⟨str "Content-Length", decimal body.length⟩] ++ body := by
  obtain ⟨headers, chunked, sent⟩ := p.atBlock_of_body stock ops
  have plain : (p.atBlock stock (ops.map BodyOp.toMessageOp)).chunked = false := by
    rw [← Bool.not_eq_true, chunked]
    simp [whole, unflushed]
  rw [sendWith_eq, messagesWith_flatten connected whole started,
    frame_of_no_headers plain (headers.trans none), addHeader_headers, headers, none, bodySent,
    if_neg (mt BodyOp.flush_mem_toMessageOp.mp unflushed), contentLength, sent unflushed, isBody]
  rfl

end Send

end Package

end Ahttpd

import Ahttpd.ContentLength
import Ahttpd.Matching

/-!
# The framing header of a message

A message says how its body is framed with a `Transfer-Encoding` or with a
`Content-Length`. `flushPackage` adds the one or the other when the header block
goes out; a `Content-Length` of user code stops it from adding a second one,
but only in a message that is not chunked, and a `Transfer-Encoding` stops it
from nothing. So there is one framing header exactly when user code has left
none, or no more than its own `Content-Length` in a message that is not flushed
(`one_framing_header_iff`).
-/

namespace Ahttpd

/-- A request or a response that user code writes. -/
inductive Message
  | request (req : Request)
  | response (res : Response)

namespace Message

def package : Message → Package
  | request req => req.toPackage
  | response res => res.toPackage

def firstLine : Message → Bytes
  | request req => req.firstLine
  | response res => res.firstLine

/-- What the destructor writes to a body that has nothing. -/
def stock : Message → Bytes
  | request _ => []
  | response res => res.stockBody

/-- The message after one operation, and what is sent. -/
def exec : Message → MessageOp → Message × List Bytes
  | request req, .flush => (request req.flush.1, req.flush.2)
  | request req, op => (request (req.withPackage (req.toPackage.edit op)), [])
  | response res, .flush => (response res.flush.1, res.flush.2)
  | response res, op => (response (res.withPackage (res.toPackage.edit op)), [])

/-- `~Request` and `~Response`. -/
def destroy : Message → List Bytes
  | request req => req.destroy
  | response res => res.destroy

/-- Everything that is sent of a message that goes through `ops` and is then
destroyed. -/
def sent : Message → List MessageOp → List Bytes
  | m, [] => m.destroy
  | m, op :: ops => (m.exec op).2 ++ sent (m.exec op).1 ops

/-- Requests and responses send as their packages do. -/
theorem sent_eq (m : Message) (ops : List MessageOp) :
    m.sent ops = m.package.messagesWith m.firstLine m.stock ops := by
  induction ops generalizing m with
  | nil => cases m <;> rfl
  | cons op ops ih =>
      rw [sent, ih]
      cases m <;> cases op <;> rfl

end Message

/-! ## Framing headers -/

namespace Header

def isContentLength (h : Header) : Bool := strcasecmp h.name (str "Content-Length")

def isTransferEncoding (h : Header) : Bool := strcasecmp h.name (str "Transfer-Encoding")

def isFraming (h : Header) : Bool := h.isContentLength || h.isTransferEncoding

end Header

/-- At most one header of the block says how the body is framed, and it says
it as it is. Whether a `Content-Length` also has to give the length of the body
is left to `strict`. -/
structure OneFraming (strict : Bool) (headers : List Header) (chunked : Bool) (body : Bytes) :
    Prop where
  single : (headers.filter Header.isFraming).length ≤ 1
  chunks : chunked = true → ∀ h ∈ headers, h.isFraming = true →
    h.isTransferEncoding = true ∧ strcasecmp h.value (str "chunked") = true
  whole : chunked = false → ∀ h ∈ headers, h.isFraming = true →
    h.isContentLength = true ∧ (strict = true → intValue h.value = some body.length)

/-- The headers of user code leave room for the framing header: there is none
among them, or the message is not chunked and there is one `Content-Length`. -/
def LeavesFraming (strict : Bool) (headers : List Header) (chunked : Bool) (body : Bytes) : Prop :=
  if chunked then ∀ h ∈ headers, h.isFraming = false
  else (headers.filter Header.isFraming).length ≤ 1 ∧ ∀ h ∈ headers, h.isFraming = true →
    h.isContentLength = true ∧ (strict = true → intValue h.value = some body.length)

instance (strict : Bool) (headers : List Header) (chunked : Bool) (body : Bytes) :
    Decidable (LeavesFraming strict headers chunked body) := by
  unfold LeavesFraming
  infer_instance

section OneFraming

variable {strict chunked : Bool} {headers : List Header} {body : Bytes} {p : Package}

theorem isFraming_of_isContentLength {h : Header} (isLength : h.isContentLength = true) :
    h.isFraming = true := by
  rw [Header.isFraming, isLength, Bool.true_or]

theorem chunked_isFraming : (⟨str "Transfer-Encoding", str "chunked"⟩ : Header).isFraming = true :=
  by decide

theorem contentLength_isContentLength (value : Bytes) :
    (⟨str "Content-Length", value⟩ : Header).isContentLength = true := by
  have same : strcasecmp (str "Content-Length") (str "Content-Length") = true := by decide
  exact same

theorem getHeader_contentLength_eq_none_iff :
    p.getHeader (str "Content-Length") = none ↔ ∀ h ∈ p.headers, h.isContentLength = false := by
  rw [Package.getHeader, Option.map_eq_none_iff, List.find?_eq_none]
  constructor <;> intro absent h member <;> simpa [Header.isContentLength] using absent h member

theorem intValue_decimal (n : Nat) : intValue (decimal n) = some (n : Int) := by
  have digits : (decimal n).all isDigit = true :=
    List.all_eq_true.mpr fun _ member => isDigit_of_mem_decimal member
  have value : valueOf 10 (decimal n) = n := valueOf_render (by decide) (by decide)
  rw [intValue, takeSign_of_digits digits]
  dsimp only
  rw [if_pos ⟨render_ne_nil 10 n, digits⟩, value]
  rfl

/-- What is added to a chunked message is one more framing header. -/
theorem oneFraming_chunked_iff (isChunked : p.chunked = true) :
    OneFraming strict p.frame.headers true body ↔ LeavesFraming strict p.headers true body := by
  rw [Package.frame_of_chunked isChunked, Package.addHeader_headers, LeavesFraming, if_pos rfl]
  constructor
  · intro one h member
    have single := one.single
    rw [List.filter_append, List.filter_cons_of_pos chunked_isFraming, List.length_append] at single
    by_contra framing
    have positive : 0 < (p.headers.filter Header.isFraming).length :=
      List.length_pos_of_mem (List.mem_filter.mpr ⟨member, by simpa using framing⟩)
    simp only [List.filter_nil, List.length_singleton] at single
    omega
  · intro none
    refine ⟨?_, fun _ h member framing => ?_, nofun⟩
    · have absent : p.headers.filter Header.isFraming = [] := by
        rw [List.filter_eq_nil_iff]
        intro h member
        rw [none h member]
        exact Bool.false_ne_true
      rw [List.filter_append, absent, List.filter_cons_of_pos chunked_isFraming]
      exact Nat.le_refl _
    · rcases List.mem_append.mp member with old | new
      · rw [none h old] at framing
        cases framing
      · obtain rfl := List.mem_singleton.mp new
        decide

/-- A message that is not chunked gets a length unless it has one. -/
theorem oneFraming_whole_iff (isWhole : p.chunked = false) :
    OneFraming strict p.frame.headers false p.body ↔
      LeavesFraming strict p.headers false p.body := by
  rw [LeavesFraming, if_neg Bool.false_ne_true]
  cases given : p.getHeader (str "Content-Length") with
  | some value =>
      have same : p.frame = p := by
        unfold Package.frame
        rw [if_neg (by simp [isWhole]), given]
      rw [same]
      exact ⟨fun one => ⟨one.single, one.whole rfl⟩, fun right => ⟨right.1, nofun, fun _ => right.2⟩⟩
  | none =>
      have absent := getHeader_contentLength_eq_none_iff.mp given
      have added : p.frame.headers =
          p.headers ++ [⟨str "Content-Length", decimal p.body.length⟩] := by
        unfold Package.frame
        rw [if_neg (by simp [isWhole]), given]
        rfl
      have isLength := contentLength_isContentLength (decimal p.body.length)
      have isFraming := isFraming_of_isContentLength isLength
      rw [added]
      constructor
      · intro one
        have single := one.single
        rw [List.filter_append, List.filter_cons_of_pos isFraming, List.length_append] at single
        exact ⟨by omega, fun h member framing =>
          one.whole rfl h (List.mem_append_left _ member) framing⟩
      · intro right
        have none : p.headers.filter Header.isFraming = [] := by
          rw [List.filter_eq_nil_iff]
          intro h member framing
          have length := (right.2 h member framing).1
          rw [absent h member] at length
          cases length
        refine ⟨?_, nofun, fun _ h member framing => ?_⟩
        · rw [List.filter_append, none, List.filter_cons_of_pos isFraming]
          exact Nat.le_refl _
        · rcases List.mem_append.mp member with old | new
          · exact right.2 h old framing
          · obtain rfl := List.mem_singleton.mp new
            exact ⟨isLength, fun _ => intValue_decimal _⟩

end OneFraming

/-! ## Messages -/

namespace Message

/-- The package when its header block goes out, without the framing header. -/
def atBlock (m : Message) (ops : List MessageOp) : Package := m.package.atBlock m.stock ops

/-- The header block that is sent. -/
def blockSent (m : Message) (ops : List MessageOp) : List Header := (m.atBlock ops).frame.headers

section Sent

variable {m : Message}

theorem atBlock_chunked (stock : Bytes) {p : Package} (whole : p.chunked = false)
    (ops : List MessageOp) : (p.atBlock stock ops).chunked = decide (MessageOp.flush ∈ ops) := by
  induction ops generalizing p with
  | nil =>
      rw [Package.atBlock, Package.stocked]
      split <;> exact whole
  | cons op ops ih =>
      by_cases flushes : op = .flush
      · rw [flushes]
        exact (decide_eq_true List.mem_cons_self).symm
      · rw [Package.atBlock_edit flushes, ih ((p.edit_state op).2.1.trans whole)]
        simp [Ne.symm flushes]

/-- **One framing header.** Whatever user code does to a message, one header
block is sent. It has one framing header, which says how the body is sent,
exactly when the headers of user code leave room for it. -/
theorem one_framing_header_iff (strict : Bool) (connected : m.package.connected = true)
    (whole : m.package.chunked = false) (started : m.package.sendStarted = false)
    (ops : List MessageOp) :
    (m.sent ops).flatten = m.firstLine ++ headerBlock (m.blockSent ops) ++
        m.package.bodySent m.stock ops ∧
      (OneFraming strict (m.blockSent ops) (decide (MessageOp.flush ∈ ops)) (m.atBlock ops).body ↔
        LeavesFraming strict (m.atBlock ops).headers (decide (MessageOp.flush ∈ ops))
          (m.atBlock ops).body) := by
  refine ⟨?_, ?_⟩
  · rw [sent_eq]
    exact Package.messagesWith_flatten connected whole started
  · have isChunked := atBlock_chunked m.stock whole ops
    by_cases flushed : MessageOp.flush ∈ ops
    · rw [decide_eq_true flushed] at isChunked ⊢
      exact oneFraming_chunked_iff isChunked
    · rw [decide_eq_false flushed] at isChunked ⊢
      exact oneFraming_whole_iff isChunked

/-- A request whose user sets the length and a header. -/
theorem one_framing_header_of_length :
    ((request {}).sent [.addHeader (str "content-length") (str "2"), .write (str "hi")]).flatten =
        (request {}).firstLine ++ headerBlock [⟨str "content-length", str "2"⟩] ++ str "hi" ∧
      (OneFraming true [⟨str "content-length", str "2"⟩] false (str "hi") ↔
        LeavesFraming true [⟨str "content-length", str "2"⟩] false (str "hi")) :=
  one_framing_header_iff (m := request {}) true rfl rfl rfl
    [.addHeader (str "content-length") (str "2"), .write (str "hi")]

/-- A flushed response with a length of its own announces both. -/
theorem length_and_chunks :
    ((response {}).sent [.setHeader (str "Content-Length") (str "5"), .write (str "hello"),
        .flush]).flatten = str "HTTP/1.1 200 OK\r\nContent-Length: 5\r\n" ++
          str "Transfer-Encoding: chunked\r\n\r\n5\r\nhello\r\n0\r\n\r\n" ∧
      ¬OneFraming false ((response {}).blockSent [.setHeader (str "Content-Length") (str "5"),
        .write (str "hello"), .flush]) true (str "hello") := by
  refine ⟨by decide +kernel, fun one => ?_⟩
  exact absurd one.single (by decide)

end Sent

end Message

end Ahttpd

import Ahttpd.Bytes

/-!
# Packages

What a request and a response have in common: the headers, the body that has
not been read yet, and the writer state of `flushPackage`. A writer does not
touch the connection here; it gives back the messages it hands to
`asyncWrite`, in order.
-/

namespace Ahttpd

/-- `header_t`. -/
structure Header where
  name : Bytes
  value : Bytes
  deriving DecidableEq

/-- `Package`. Of the connection only whether there still is one. -/
structure Package where
  chunked : Bool := false
  sendStarted : Bool := false
  headers : List Header := []
  body : Bytes := []
  connected : Bool := true
  deriving DecidableEq

/-- A header as a line of the header block. -/
def Header.line (h : Header) : Bytes := h.name ++ str ": " ++ h.value

/-- The header block, the blank line included. -/
def headerBlock (headers : List Header) : Bytes :=
  headers.flatMap (fun h => h.line ++ CRLF) ++ CRLF

/-- One chunk of a chunked body. -/
def chunk (data : Bytes) : Bytes := hex data.length ++ CRLF ++ data ++ CRLF

/-- `"0\r\n\r\n"`. -/
def lastChunk : Bytes := str "0" ++ CRLF ++ CRLF

namespace Package

def discardConnection (p : Package) : Package := { p with connected := false }

def getHeaders (p : Package) (hName : Bytes) : List Bytes :=
  (p.headers.filter fun h => strcasecmp h.name hName).map (·.value)

/-- The value of the first header of this name. -/
def getHeader (p : Package) (hName : Bytes) : Option Bytes :=
  (p.headers.find? fun h => strcasecmp h.name hName).map (·.value)

def addHeader (p : Package) (hName hValue : Bytes) : Package :=
  { p with headers := p.headers ++ [⟨hName, hValue⟩] }

def delHeader (p : Package) (hName : Bytes) : Package :=
  { p with headers := p.headers.filter fun h => !strcasecmp h.name hName }

def setHeader (p : Package) (hName hValue : Bytes) : Package :=
  (p.delHeader hName).addHeader hName hValue

/-- Text at the end of the first header of a name, whose value `getHeader`
points to. -/
def extendFirst (hName text : Bytes) : List Header → List Header
  | [] => []
  | h :: headers =>
      if strcasecmp h.name hName then { h with value := h.value ++ text } :: headers
      else h :: extendFirst hName text headers

def contentLength (p : Package) : Nat := p.body.length

/-- `out().write(data, n)`. -/
def write (p : Package) (data : Bytes) : Package := { p with body := p.body ++ data }

def setChunked (p : Package) : Package := { p with chunked := true }

/-- The headers with the framing header that `flushPackage` adds before it
sends them. -/
def frame (p : Package) : Package :=
  if p.chunked then p.addHeader (str "Transfer-Encoding") (str "chunked")
  else
    match p.getHeader (str "Content-Length") with
    | none => p.addHeader (str "Content-Length") (decimal p.contentLength)
    | some _ => p

/-- The framing header that is added, if any. -/
def framing (p : Package) : List Header :=
  if p.chunked then [⟨str "Transfer-Encoding", str "chunked"⟩]
  else
    match p.getHeader (str "Content-Length") with
    | none => [⟨str "Content-Length", decimal p.contentLength⟩]
    | some _ => []

/-- The first half of `flushPackage`: the header block, unless it has been
sent. -/
def startSend (p : Package) : Package × Bytes :=
  if p.sendStarted then (p, [])
  else ({ p.frame with sendStarted := true }, headerBlock p.frame.headers)

/-- The second half: the body that has been written since. -/
def sendBody (p : Package) : Package × Bytes :=
  if p.body = [] then (p, [])
  else ({ p with body := [] }, if p.chunked then chunk p.body else p.body)

/-- The package afterwards and the message for `asyncWrite`. -/
def flushPackage (p : Package) : Package × Bytes :=
  let (p, headers) := p.startSend
  let (p, body) := p.sendBody
  (p, headers ++ body)

/-! ## Facts about one package -/

section Facts

variable {p : Package}

@[simp] theorem addHeader_headers {hName hValue : Bytes} :
    (p.addHeader hName hValue).headers = p.headers ++ [⟨hName, hValue⟩] := rfl

@[simp] theorem write_body {data : Bytes} : (p.write data).body = p.body ++ data := rfl

@[simp] theorem setChunked_body : p.setChunked.body = p.body := rfl

@[simp] theorem write_nil : p.write [] = p := by
  simp [write]

theorem write_write (data more : Bytes) : (p.write data).write more = p.write (data ++ more) := by
  simp [write]

/-- Framing adds at most one header, and touches nothing else. -/
theorem frame_eq : p.frame = { p with headers := p.headers ++ p.framing } := by
  unfold frame framing
  split
  · rfl
  · split
    · rfl
    · rw [List.append_nil]

theorem frame_of_chunked (chunked : p.chunked = true) :
    p.frame = p.addHeader (str "Transfer-Encoding") (str "chunked") :=
  if_pos chunked

theorem frame_of_no_headers (whole : p.chunked = false) (none : p.headers = []) :
    p.frame = p.addHeader (str "Content-Length") (decimal p.contentLength) := by
  have missing : p.getHeader (str "Content-Length") = Option.none := by
    rw [getHeader, none]
    rfl
  unfold frame
  rw [if_neg (by simp [whole]), missing]

/-- What `flushPackage` leaves: the header block is out and so is the body. -/
theorem flushPackage_fst : p.flushPackage.1 =
    { (if p.sendStarted then p else p.frame) with sendStarted := true, body := [] } := by
  simp only [flushPackage, startSend, sendBody]
  by_cases started : p.sendStarted = true <;> by_cases empty : p.body = [] <;>
    simp [started, empty, frame_eq]
  obtain ⟨chunked, sendStarted, headers, body, connected⟩ := p
  simp_all

/-- The message `flushPackage` hands to `asyncWrite`. -/
theorem flushPackage_snd : p.flushPackage.2 =
    (if p.sendStarted then [] else headerBlock p.frame.headers) ++
      if p.body = [] then [] else if p.chunked then chunk p.body else p.body := by
  simp only [flushPackage, startSend, sendBody]
  by_cases started : p.sendStarted = true <;> by_cases empty : p.body = [] <;>
    simp [started, empty, frame_eq]

end Facts

end Package

end Ahttpd

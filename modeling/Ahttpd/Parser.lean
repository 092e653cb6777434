import Ahttpd.ChunkedBody
import Ahttpd.FirstLine
import Ahttpd.Headers

/-!
# The parser

`parseBody` chooses between a body with a length, a chunked body and none, and
`parse` chains the three stages as the macro `PARSE` does, for requests and for
responses. `chunked_message_completes_once_iff` lifts the count of handler
calls of the chunked body to the two parsers.
-/

namespace Ahttpd

open Basis

/-! ## `parse_body` -/

/-- The body with a length, from the comparison with what is buffered on. -/
def readLengthBody (length : Nat) (pac : Package) (net : Net) : Completion Package :=
  let alreadyRead := net.buf.length
  let need := needRead length alreadyRead
  if need < 0 then ⟨[none], net, .finished⟩
  else
    let pac := pac.write net.buf
    let net := net.withBuf []
    if need = 0 then ⟨[some pac], net, .finished⟩
    else
      match net.readExactly need.toNat with
      | .pending net => ⟨[], net, .waiting⟩
      | .error net => ⟨[none], net, .finished⟩
      | .ok net => ⟨[some (pac.write net.buf)], net.withBuf [], .finished⟩

def parseBody (pac : Package) (net : Net) : Completion Package :=
  match pac.getHeader (str "Content-Length") with
  | none =>
      match pac.getHeader (str "Transfer-Encoding") with
      | some h =>
          if strcasecmp h (str "chunked") then readChunkedBody pac net
          else ⟨[some pac], net, .finished⟩
      | none => ⟨[some pac], net, .finished⟩
  | some h =>
      match lexicalCastUnsigned (2 ^ 64) h with
      | none => ⟨[none], net, .finished⟩
      | some 0 => ⟨[some pac], net, .finished⟩
      | some length => readLengthBody length pac net

/-! ## `parseRequest` and `parseResponse` -/

/-- What `PARSE` uses of a kind of message. -/
structure Dialect (π : Type) where
  fresh : π
  firstLine : π → Bytes → Except TokenError (Option π)
  package : π → Package
  withPackage : π → Package → π
  parseCookie : π → π
  /-- The first line brings neither headers nor a body. -/
  package_firstLine : ∀ {line pac}, firstLine fresh line = .ok (some pac) → package pac = {}
  package_withPackage : ∀ pac p, package (withPackage pac p) = p
  package_parseCookie : ∀ pac, package (parseCookie pac) = package pac

def Completion.map {α β : Type} (f : α → β) (c : Completion α) : Completion β :=
  ⟨c.calls.map (Option.map f), c.net, c.ending⟩

/-- `RETURN_IF_ERROR` and the stage behind it. -/
def Stage.andThen {α β : Type} (stage : Stage α) (next : α → Net → Completion β) : Completion β :=
  match stage with
  | .handle none net => ⟨[none], net, .finished⟩
  | .handle (some pac) net => next pac net
  | .waiting net => ⟨[], net, .waiting⟩
  | .threw error net => ⟨[], net, .threw error⟩

/-- `PARSE`: the first line, the headers and the body, each in the handler of
the stage before. -/
def parse {π : Type} (D : Dialect π) (net : Net) : Completion π :=
  (parseFirstLine (D.firstLine D.fresh) net).andThen fun pac net =>
    (parseHeaders (D.package pac) net).andThen fun p net =>
      let pac := D.parseCookie (D.withPackage pac p)
      (parseBody (D.package pac) net).map (D.withPackage pac)

theorem package_of_requestFirstLine {line : Bytes} {req : Request}
    (completes : requestFirstLine {} line = .ok (some req)) : req.toPackage = {} := by
  rw [requestFirstLine_eq] at completes
  match tokens : explode line SP with
  | [] => rw [tokens] at completes; cases completes
  | [method] => rw [tokens] at completes; cases completes
  | method :: url :: more =>
      match pieces : explode url (byte '?') with
      | [] => simp only [tokens, pieces] at completes; cases completes
      | path :: queries =>
          simp only [tokens, pieces] at completes
          cases decoded : urlDecode path <;> cases more <;> cases queries <;>
            simp only [decoded] at completes <;> cases completes <;> rfl

theorem package_of_responseFirstLine {line : Bytes} {res : Response}
    (completes : responseFirstLine {} line = .ok (some res)) : res.toPackage = {} := by
  unfold responseFirstLine at completes
  split at completes
  · cases completes
  · dsimp only at completes
    split at completes <;> cases completes
    rfl

def requestDialect : Dialect Request where
  fresh := {}
  firstLine := requestFirstLine
  package := Request.toPackage
  withPackage := Request.withPackage
  parseCookie := Request.parseCookie
  package_firstLine := package_of_requestFirstLine
  package_withPackage _ _ := rfl
  package_parseCookie := Request.parseCookie_toPackage

/-- `Response::parseCookie` sets nothing but the cookies, which are left out. -/
def responseDialect : Dialect Response where
  fresh := {}
  firstLine := responseFirstLine
  package := Response.toPackage
  withPackage := Response.withPackage
  parseCookie := id
  package_firstLine := package_of_responseFirstLine
  package_withPackage _ _ := rfl
  package_parseCookie _ := rfl

def parseRequest (net : Net) : Completion Request := parse requestDialect net

def parseResponse (net : Net) : Completion Response := parse responseDialect net

/-! ## Coming to the body -/

/-- The parser comes to the body with `pac` parsed and `t` to be read. -/
structure ReachesBody {π : Type} (D : Dialect π) (net : Net) (pac : π) (t : Net) : Prop where
  stages : ∃ first t', parseFirstLine (D.firstLine D.fresh) net = .handle (some first) t' ∧
    ∃ p, parseHeaders {} t' = .handle (some p) t ∧ pac = D.parseCookie (D.withPackage first p)

section Stages

variable {π : Type} {D : Dialect π} {net t : Net} {pac : π} {p : Package}

theorem package_of_parseFirstLine
    (handled : parseFirstLine (D.firstLine D.fresh) net = .handle (some pac) t) :
    D.package pac = {} := by
  rcases of_parseFirstLine handled with ⟨line, -, completes⟩
  exact D.package_firstLine completes

/-- Header lines add headers and nothing else. -/
theorem addHeaderLine_eq (line : Bytes) :
    ∃ headers, addHeaderLine p line = { p with headers := p.headers ++ headers } := by
  unfold addHeaderLine
  split
  · exact ⟨_, rfl⟩
  · exact ⟨[], by rw [List.append_nil]⟩

/-- What reading through a header block does to the package and the input. -/
structure HeadersRead (p : Package) (net : Net) (result : Package) (t : Net) : Prop where
  package : ∃ headers, result = { p with headers := p.headers ++ headers }
  ended : t.ended = net.ended
  shorter : t.remaining.length < net.remaining.length

theorem HeadersRead.of_line {line : Bytes} {result : Package} {u : Net}
    (read : readLine net = .line line t) (later : HeadersRead (addHeaderLine p line) t result u) :
    HeadersRead p net result u where
  package := by
    obtain ⟨first, eq⟩ := addHeaderLine_eq (p := p) line
    obtain ⟨headers, rfl⟩ := later.package
    exact ⟨first ++ headers, by simp [eq]⟩
  ended := later.ended.trans (of_readLine read).2.2
  shorter := later.shorter.trans (length_of_readLine read)

theorem of_parseHeaders {result : Package}
    (handled : parseHeaders p net = .handle (some result) t) : HeadersRead p net result t := by
  refine parseHeadersLoop.run_induction (motive := fun s stage => ∀ result t,
    stage = .handle (some result) t → HeadersRead s.1 s.2 result t) ?_ ?_ (p, net) result t handled
  · intro s stage halts result t isHandle
    subst isHandle
    rcases of_parseHeadersStep_handle halts with ⟨blank, read, rfl⟩
    exact ⟨⟨[], by rw [List.append_nil]⟩, (of_readLine read).2.2, length_of_readLine read⟩
  · intro s s' goes ih result t handled
    rcases of_parseHeadersStep_goes goes with ⟨line, read, isPackage⟩
    exact .of_line read (isPackage ▸ ih result t handled)

theorem ended_of_parseFirstLine
    (handled : parseFirstLine (D.firstLine D.fresh) net = .handle (some pac) t) :
    t.ended = net.ended := by
  rcases of_parseFirstLine handled with ⟨line, read, -⟩
  exact (of_readLine read).2.2

/-- At the body the package has headers and nothing else. -/
theorem ReachesBody.package (reaches : ReachesBody D net pac t) :
    ∃ headers, D.package pac = { headers } := by
  obtain ⟨first, t', -, p, handled, rfl⟩ := reaches.stages
  rcases (of_parseHeaders handled).package with ⟨headers, rfl⟩
  exact ⟨headers, by rw [D.package_parseCookie, D.package_withPackage]; rfl⟩

theorem ReachesBody.ended (reaches : ReachesBody D net pac t) : t.ended = net.ended := by
  obtain ⟨first, t', first', p, headers, -⟩ := reaches.stages
  exact (of_parseHeaders headers).ended.trans (ended_of_parseFirstLine first')

theorem ReachesBody.parse_eq (reaches : ReachesBody D net pac t) :
    parse D net = (parseBody (D.package pac) t).map (D.withPackage pac) := by
  obtain ⟨first, t', first', p, headers, rfl⟩ := reaches.stages
  have fresh := package_of_parseFirstLine first'
  simp only [parse, first', Stage.andThen, fresh, headers]

end Stages

/-! ## What a delivered message leaves -/

section Delivers

variable {π : Type} {D : Dialect π} {net t : Net} {p : Package}

theorem deliversOnce_of_readLengthBody {length : Nat} :
    (readLengthBody length p net).DeliversOnce net := by
  intro pac member
  simp only [readLengthBody] at member ⊢
  split at member
  · simp at member
  · rename_i enough
    rw [if_neg enough]
    split at member
    · rename_i none
      rw [if_pos none]
      refine ⟨congrArg (fun pac => [pac]) (List.mem_singleton.mp member).symm, ?_⟩
      rw [Segmented.withBuf_remaining, Segmented.remaining, List.length_append, List.length_append]
      exact Nat.add_le_add_right (Nat.zero_le _) _
    · rename_i some
      rw [if_neg some]
      split at member
      · simp at member
      · simp at member
      · rename_i u read
        rcases Segmented.readExactly_ok read with ⟨-, -, -, same⟩
        have bytes := congrArg List.length same.remaining
        dsimp only
        refine ⟨congrArg (fun pac => [pac]) (List.mem_singleton.mp member).symm, ?_⟩
        simp only [Segmented.remaining, Segmented.withBuf_buf, Segmented.withBuf_reads,
          List.length_append, List.length_nil] at bytes ⊢
        omega

theorem deliversOnce_of_parseBody (connected : p.connected = true) :
    (parseBody p net).DeliversOnce net := by
  have plain : ∀ call : Option Package, (⟨[call], net, .finished⟩ : Completion Package).DeliversOnce
      net := fun call pac member =>
    ⟨congrArg (fun pac => [pac]) (List.mem_singleton.mp member).symm, Nat.le_refl _⟩
  unfold parseBody
  split
  · split
    · split
      · exact deliversOnce_of_readChunkedBody connected
      · exact plain _
    · exact plain _
  · split
    · exact plain _
    · exact plain _
    · exact deliversOnce_of_readLengthBody

theorem length_of_parseFirstLine {pac : π}
    (handled : parseFirstLine (D.firstLine D.fresh) net = .handle (some pac) t) :
    t.remaining.length < net.remaining.length := by
  rcases of_parseFirstLine handled with ⟨line, read, -⟩
  exact length_of_readLine read

/-- What a parser delivers went through all of its stages. -/
theorem exists_reachesBody {pac : π} (member : some pac ∈ (parse D net).calls) :
    ∃ mid t body, ReachesBody D net mid t ∧ some body ∈ (parseBody (D.package mid) t).calls ∧
      pac = D.withPackage mid body := by
  unfold parse at member
  cases isFirst : parseFirstLine (D.firstLine D.fresh) net with
  | waiting u => simp [isFirst, Stage.andThen] at member
  | threw error u => simp [isFirst, Stage.andThen] at member
  | handle result u =>
      cases result with
      | none => simp [isFirst, Stage.andThen] at member
      | some first =>
          have fresh := package_of_parseFirstLine isFirst
          simp only [isFirst, Stage.andThen, fresh] at member
          cases headers : parseHeaders {} u with
          | waiting v => simp [headers] at member
          | threw error v => simp [headers] at member
          | handle result v =>
              cases result with
              | none => simp [headers] at member
              | some p =>
                  simp only [headers] at member
                  rcases List.mem_map.mp member with ⟨call, isCall, isPac⟩
                  rcases Option.map_eq_some_iff.mp isPac with ⟨body, rfl, rfl⟩
                  exact ⟨_, v, body, ⟨first, u, isFirst, p, headers, rfl⟩, isCall, rfl⟩

theorem ReachesBody.shorter {pac : π} (reaches : ReachesBody D net pac t) :
    t.remaining.length < net.remaining.length := by
  obtain ⟨first, t', first', p, headers, -⟩ := reaches.stages
  exact (of_parseHeaders headers).shorter.trans (length_of_parseFirstLine first')

/-- A parser that delivers a message calls its handler this one time, and the
message has taken bytes off the input. -/
theorem calls_of_parse {pac : π} (member : some pac ∈ (parse D net).calls) :
    (parse D net).calls = [some pac] ∧
      (parse D net).net.remaining.length < net.remaining.length := by
  obtain ⟨mid, t, body, reaches, isCall, rfl⟩ := exists_reachesBody member
  obtain ⟨_, isPackage⟩ := reaches.package
  obtain ⟨once, left⟩ := deliversOnce_of_parseBody (by rw [isPackage]) body isCall
  rw [reaches.parse_eq]
  exact ⟨by simp [Completion.map, once], Nat.lt_of_le_of_lt left reaches.shorter⟩

end Delivers

/-! ## Chunked messages -/

/-- The headers select the chunked body. -/
def SelectsChunked (pac : Package) : Prop :=
  pac.getHeader (str "Content-Length") = none ∧
    ∃ h, pac.getHeader (str "Transfer-Encoding") = some h ∧ strcasecmp h (str "chunked") = true

theorem parseBody_of_chunked {pac : Package} (selects : SelectsChunked pac) (net : Net) :
    parseBody pac net = readChunkedBody pac net := by
  obtain ⟨noLength, h, encoding, chunked⟩ := selects
  simp only [parseBody, noLength, encoding, chunked, if_true]

/-- No round of the chunked body that is read from `t` on comes to a bad
end. -/
def EndsWell (pac : Package) (t : Net) : Prop :=
  ∀ round, roundLoop.Visits (pac, t) round → ¬ BadEnd round.2

/-- The number of handler calls of a parser on a chunked message. -/
theorem calls_parse_iff {π : Type} {D : Dialect π} {net t : Net} {pac : π}
    (ended : net.ended = true) (reaches : ReachesBody D net pac t)
    (selects : SelectsChunked (D.package pac)) :
    (parse D net).calls.length = 1 ↔ EndsWell (D.package pac) t := by
  obtain ⟨headers, isPackage⟩ := reaches.package
  rw [reaches.parse_eq, parseBody_of_chunked selects, Completion.map, List.length_map]
  exact calls_readChunkedBody_iff (by rw [isPackage]) (reaches.ended.trans ended)

/-- **Completion of chunked messages.** On a connection that ends, in whatever
reads and wherever it ends, the two parsers call their handler exactly once for
a chunked message if and only if no round of its body comes to a bad end. -/
theorem chunked_message_completes_once_iff {net : Net} (ended : net.ended = true) :
    (∀ (t : Net) (req : Request), ReachesBody requestDialect net req t →
      SelectsChunked req.toPackage →
        ((parseRequest net).calls.length = 1 ↔ EndsWell req.toPackage t)) ∧
      ∀ (t : Net) (res : Response), ReachesBody responseDialect net res t →
        SelectsChunked res.toPackage →
          ((parseResponse net).calls.length = 1 ↔ EndsWell res.toPackage t) :=
  ⟨fun _ _ reaches selects => calls_parse_iff ended reaches selects,
    fun _ _ reaches selects => calls_parse_iff ended reaches selects⟩

section Examples

/-- The head of a chunked request for `/`. -/
def chunkedHead : Bytes := str "GET / HTTP/1.1\r\nTransfer-Encoding: chunked\r\n\r\n"

/-- The head of a chunked response. -/
def chunkedResponseHead : Bytes := str "HTTP/1.1 200 OK\r\nTransfer-Encoding: chunked\r\n\r\n"

def chunkedRequest : Request where
  headers := [⟨str "Transfer-Encoding", str "chunked"⟩]
  method := str "GET"
  path := str "/"
  version := str "HTTP/1.1\r"

def chunkedResponse : Response where
  headers := [⟨str "Transfer-Encoding", str "chunked"⟩]
  version := str "HTTP/1.1"
  msg := str "OK"

theorem selectsChunked_of_example :
    SelectsChunked { headers := [⟨str "Transfer-Encoding", str "chunked"⟩] } :=
  ⟨rfl, str "chunked", rfl, rfl⟩

theorem chunked_message_completes_once_of_empty :
    EndsWell chunkedRequest.toPackage ⟨lastChunk, [], nofun, true⟩ ∧
      EndsWell chunkedResponse.toPackage ⟨lastChunk, [], nofun, true⟩ := by
  constructor
  · have once :
        (parseRequest (oneRead (chunkedHead ++ lastChunk) (by decide))).calls.length = 1 := by
      decide +kernel
    exact ((chunked_message_completes_once_iff rfl).1 _ chunkedRequest ⟨_, _, rfl, _, rfl, rfl⟩
      selectsChunked_of_example).mp once
  · have once : (parseResponse (oneRead (chunkedResponseHead ++ lastChunk)
        (by decide))).calls.length = 1 := by
      decide +kernel
    exact ((chunked_message_completes_once_iff rfl).2 _ chunkedResponse ⟨_, _, rfl, _, rfl, rfl⟩
      selectsChunked_of_example).mp once

/-- A request that ends behind the line of its last chunk is never answered,
and one that ends in the data of a chunk is rejected three times. -/
theorem chunked_message_miscounts :
    (∃ t, ReachesBody requestDialect (oneRead (chunkedHead ++ str "0\r\n") (by decide))
        chunkedRequest t ∧ SelectsChunked chunkedRequest.toPackage ∧
        (parseRequest (oneRead (chunkedHead ++ str "0\r\n") (by decide))).calls = []) ∧
      ∃ t, ReachesBody requestDialect (oneRead (chunkedHead ++ str "5\r\nab") (by decide))
        chunkedRequest t ∧ SelectsChunked chunkedRequest.toPackage ∧
        (parseRequest (oneRead (chunkedHead ++ str "5\r\nab") (by decide))).calls =
          [none, none, none] :=
  ⟨⟨_, ⟨_, _, rfl, _, rfl, rfl⟩, selectsChunked_of_example, by decide +kernel⟩,
    ⟨_, ⟨_, _, rfl, _, rfl, rfl⟩, selectsChunked_of_example, by decide +kernel⟩⟩

end Examples

end Ahttpd

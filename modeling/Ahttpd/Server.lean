import Ahttpd.Segmentation

/-!
# The parse loop of the server

`Server::handleRequest` parses one request after the other from a connection
as long as they ask to keep it. `serve_segmentation` is the result of the
segmentation module carried over a whole connection, and
`pipelined_request_is_lost` shows why its condition is there.
-/

namespace Ahttpd

open Basis

/-- What becomes of a connection behind its last request. -/
inductive Outcome
  /-- The last request did not ask to keep the connection, and nothing more is
  read. -/
  | closed
  /-- `conn->stop()`. -/
  | stopped
  /-- A read has not completed. -/
  | waiting
  /-- The parser came to rest without a call. -/
  | abandoned
  /-- An exception left a callback. -/
  | threw (error : TokenError)
  deriving DecidableEq

/-- What `handleRequest` did with a connection. -/
structure Served where
  delivered : List Request
  outcome : Outcome
  deriving DecidableEq

structure ServeState where
  net : Net
  delivered : List Request

/-- `handleRequest` once: parse a request, give it to the pool, and go on if it
asks for it. A parser that calls its handler more than once calls it with
`nullptr` only. -/
def serveStep (s : ServeState) : ServeState ⊕ Served :=
  let parsed := parseRequest s.net
  match parsed.calls with
  | some request :: _ =>
      if request.keepAlive then .inl ⟨parsed.net, s.delivered ++ [request]⟩
      else .inr ⟨s.delivered ++ [request], .closed⟩
  | none :: _ => .inr ⟨s.delivered, .stopped⟩
  | [] =>
      .inr ⟨s.delivered, match parsed.ending with
        | .finished => .abandoned
        | .waiting => .waiting
        | .threw error => .threw error⟩

theorem rank_serveStep_lt (s t : ServeState) (goes : serveStep s = .inl t) :
    t.net.remaining.length < s.net.remaining.length := by
  simp only [serveStep] at goes
  split at goes
  · rename_i request later isCall
    split at goes
    · obtain rfl := Sum.inl.inj goes
      have member : some request ∈ (parse requestDialect s.net).calls := by
        rw [show (parse requestDialect s.net).calls = some request :: later from isCall]
        exact List.mem_cons_self
      exact (calls_of_parse member).2
    · cases goes
  · cases goes
  · cases goes

/-- The parse loop of one connection. -/
def serveLoop : Loop ServeState Served where
  step := serveStep
  rank s := s.net.remaining.length
  rank_lt := rank_serveStep_lt

/-- `Server::handleRequest` on a connection with this input. -/
def serve (net : Net) : Served := serveLoop.run ⟨net, []⟩

/-! ## Segmentation -/

/-- In every message of the connection, the buffer cannot tell segmentations
apart where the body is read. -/
def ConnectionFits (net : Net) : Prop :=
  ∀ s, serveLoop.Visits ⟨net, []⟩ s → MessageFits requestDialect s.net

/-- **Segmentation independence.** Two ways of cutting the bytes of a connection
deliver the same requests and come to the same outcome, in all runs in which
every body is read in a state where its buffer fits. -/
theorem serve_segmentation {s t : Net} (same : SameInput s t) (fits : ConnectionFits s)
    (fits' : ConnectionFits t) : serve s = serve t := by
  refine Loop.run_simulation_of_visits (L := serveLoop) (M := serveLoop) (Q := Eq)
    (R := fun a b => SameInput a.net b.net ∧ a.delivered = b.delivered)
    (P := fun a => MessageFits requestDialect a.net)
    (S := fun b => MessageFits requestDialect b.net) ?_ ⟨same, rfl⟩ fits fits'
  intro a b related fits fits'
  rcases a with ⟨s, delivered⟩
  rcases b with ⟨t, delivered'⟩
  obtain ⟨same, rfl⟩ : SameInput s t ∧ delivered = delivered' := related
  have parsed := parse_same same fits fits'
  have calls : (parseRequest t).calls = (parseRequest s).calls := parsed.calls.symm
  have ending : (parseRequest t).ending = (parseRequest s).ending := parsed.ending.symm
  change Sum.LiftRel _ _ (serveStep _) (serveStep _)
  simp only [serveStep, calls, ending]
  split
  · rename_i request later isCall
    split
    · refine .inl ⟨parsed.net ⟨request, ?_⟩, rfl⟩
      rw [show (parse requestDialect s).calls = some request :: later from isCall]
      exact List.mem_cons_self
    · exact .inr rfl
  · exact .inr rfl
  · exact .inr rfl

section Examples

/-- A request with a body of one byte. -/
def closingHead : Bytes := str "POST / HTTP/1.1\r\nContent-Length: 1\r\n\r\n"

theorem bodyFits_of_one {t : Net} (short : t.buf.length ≤ 1) :
    BodyFits { headers := [⟨str "Content-Length", str "1"⟩] } t where
  length := by
    intro h length isHeader cast _
    obtain rfl : str "1" = h := Option.some.inj isHeader
    obtain rfl : 1 = length := Option.some.inj cast
    have one : toInt32 (1 : Nat) = 1 := rfl
    refine ⟨fun _ => ?_, fun negative => ?_⟩
    · rw [one]
      omega
    · rw [one] at negative
      omega
  chunks selects := nomatch selects.1

theorem serve_segmentation_of_one :
    serve (oneRead (closingHead ++ str "x") (by decide)) =
      serve ⟨[], [closingHead, str "x"], by decide, true⟩ := by
  refine serve_segmentation ⟨by decide +kernel, rfl⟩ (fun s visits => ?_) (fun s visits => ?_)
  · obtain rfl := (Loop.visits_of_halt (L := serveLoop) rfl).mp visits
    exact messageFits_of_stages rfl rfl (bodyFits_of_one (by decide))
  · obtain rfl := (Loop.visits_of_halt (L := serveLoop) rfl).mp visits
    exact messageFits_of_stages rfl rfl (bodyFits_of_one (by decide))

/-- A request with a body of one byte that asks to keep the connection. -/
def postHead : Bytes :=
  str "POST / HTTP/1.1\r\nConnection: keep-alive\r\nContent-Length: 1\r\n\r\n"

/-- The next request. -/
def nextRequest : Bytes := str "GET / HTTP/1.1\r\n\r\n"

/-- The two requests in one read. -/
def pipelined : Net := oneRead (postHead ++ (str "x" ++ nextRequest)) (by decide)

/-- The same bytes in three reads: the head, the body, the next request. -/
def pipelinedInThree : Net :=
  ⟨[], [postHead, str "x", nextRequest], by decide, true⟩

/-- Cut behind the head and the body both requests are delivered; in one read
the first is rejected because its body is not all that is buffered. -/
theorem pipelined_request_is_lost :
    SameInput pipelined pipelinedInThree ∧ pipelined.buf = [] ∧ pipelinedInThree.buf = [] ∧
      (serve pipelined).delivered.length = 0 ∧
      (serve pipelinedInThree).delivered.length = 2 :=
  ⟨⟨by decide +kernel, rfl⟩, rfl, rfl, by decide +kernel, by decide +kernel⟩

end Examples

end Ahttpd

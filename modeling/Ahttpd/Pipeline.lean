import Ahttpd.Causality
import Ahttpd.KeepAlive
import Ahttpd.MessageRoundTrip

/-!
# A connection as a sequence of requests

`serveRequests` is what a connection is for: whole requests come in, and they
are delivered in their order up to the first that does not ask to keep the
connection. The parse loop of the server does this from bytes
(`bursts_are_served`). Requests that are sent together may arrive in any reads
as long as each but the last ends itself; where requests are sent apart, as by
a client that waits for its response, the reads end where they end.
-/

namespace Ahttpd

open Basis Segmented

/-- A request, and all that user code does to it before it is destroyed. -/
structure Sending where
  req : Request
  ops : List MessageOp

namespace Sending

/-- The bytes that are sent. -/
def bytes (m : Sending) : Bytes := ((Message.request m.req).sent m.ops).flatten

/-- The request as the server gets it. -/
def received (m : Sending) : Request := m.req.received m.ops

/-- The request is one that the reader gives back whole. -/
@[mk_iff]
structure Readable (m : Sending) : Prop where
  spelled : m.req.Spelled
  plain : m.req.PlainTarget
  unsent : m.req.toPackage.Unsent
  readable : m.req.toPackage.Readable [] m.ops

instance (m : Sending) : Decidable m.Readable := decidable_of_iff _ (readable_iff m).symm

def EndsItself (m : Sending) : Prop := m.req.toPackage.EndsItself [] m.ops

end Sending

/-- Requests that are sent together. -/
abbrev Burst := List Sending

namespace Burst

def bytes (b : Burst) : Bytes := b.flatMap Sending.bytes

/-- Every request can be read, and where each but the last ends is seen without
looking at how much is buffered. -/
structure Fits (b : Burst) : Prop where
  readable : ∀ m ∈ b, m.Readable
  ends : ∀ m ∈ b.dropLast, m.EndsItself

theorem Fits.tail {m : Sending} {b : Burst} (fits : Fits (m :: b)) : Fits b where
  readable other member := fits.readable other (List.mem_cons_of_mem _ member)
  ends other member := by
    apply fits.ends
    cases b with
    | nil => exact absurd member List.not_mem_nil
    | cons next b =>
        rw [List.dropLast_cons_of_ne_nil (List.cons_ne_nil _ _)]
        exact List.mem_cons_of_mem _ member

/-- Behind a request that does not end itself the burst is over. -/
theorem Fits.endsItself {m : Sending} {b : Burst} (fits : Fits (m :: b)) :
    bytes b = [] ∨ m.EndsItself := by
  cases b with
  | nil => exact .inl rfl
  | cons next b =>
      refine .inr (fits.ends m ?_)
      rw [List.dropLast_cons_of_ne_nil (List.cons_ne_nil _ _)]
      exact List.mem_cons_self

end Burst

/-! ## What a connection is for -/

/-- Whole requests on a connection that ends behind them or stays open. -/
def serveRequests (ended : Bool) : List Request → Served
  | [] => ⟨[], if ended then .stopped else .waiting⟩
  | req :: reqs =>
      if req.keepAlive then
        let served := serveRequests ended reqs
        ⟨req :: served.delivered, served.outcome⟩
      else ⟨[req], .closed⟩

/-- The requests that have been delivered in front of others. -/
def Served.after (delivered : List Request) (served : Served) : Served :=
  ⟨delivered ++ served.delivered, served.outcome⟩

section

variable {ended : Bool} {req : Request} {reqs delivered : List Request}

theorem serveRequests_keepAlive (keeps : req.keepAlive = true) :
    (serveRequests ended (req :: reqs)).after delivered =
      (serveRequests ended reqs).after (delivered ++ [req]) := by
  rw [serveRequests, if_pos keeps]
  simp only [Served.after, List.append_assoc, List.singleton_append]

theorem serveRequests_closes (closes : req.keepAlive = false) :
    (serveRequests ended (req :: reqs)).after delivered = ⟨delivered ++ [req], .closed⟩ := by
  rw [serveRequests, if_neg (by simp [closes])]
  rfl

/-- All requests that ask to keep the connection, and the one behind them. -/
theorem serveRequests_delivered (ended : Bool) (reqs : List Request) :
    (serveRequests ended reqs).delivered =
      reqs.takeWhile (·.keepAlive) ++ (reqs.dropWhile (·.keepAlive)).take 1 := by
  induction reqs with
  | nil => rfl
  | cons req reqs ih =>
      by_cases keeps : req.keepAlive = true
      · rw [serveRequests, if_pos keeps, List.takeWhile_cons_of_pos keeps,
          List.dropWhile_cons_of_pos keeps, List.cons_append, ← ih]
      · rw [serveRequests, if_neg keeps, List.takeWhile_cons_of_neg keeps,
          List.dropWhile_cons_of_neg keeps]
        rfl

/-- The connection is closed behind a request that does not ask to keep it. -/
theorem serveRequests_closed_iff (ended : Bool) (reqs : List Request) :
    (serveRequests ended reqs).outcome = .closed ↔ ∃ req ∈ reqs, req.keepAlive = false := by
  induction reqs with
  | nil => cases ended <;> simp [serveRequests]
  | cons req reqs ih =>
      by_cases keeps : req.keepAlive = true
      · rw [serveRequests, if_pos keeps, List.exists_mem_cons_iff, keeps, ih]
        simp
      · rw [serveRequests, if_neg keeps]
        exact iff_of_true rfl ⟨req, List.mem_cons_self, Bool.eq_false_iff.mpr keeps⟩

end

/-! ## From bytes to requests -/

section Serve

variable {s net : Net} {later : List Bytes} {ends : Bool} {delivered reqs : List Request}
  {b : Burst} {bursts : List Burst} {blocks : List (List Bytes)}

/-- Nothing is left to parse. -/
theorem run_of_nothing (empty : net.remaining = []) :
    serveLoop.run ⟨net, delivered⟩ = (serveRequests net.ended []).after delivered := by
  have lineless : LF ∉ net.remaining := empty ▸ List.not_mem_nil
  have read := readLine_of_no_line lineless
  apply Loop.run_of_halt
  change serveStep ⟨net, delivered⟩ = _
  unfold serveStep parseRequest parse parseFirstLine
  rw [read]
  cases isEnded : net.ended with
  | true => simp [Stage.andThen, serveRequests, Served.after]
  | false => simp [Stage.andThen, serveRequests, Served.after]

/-- What the loop does when a burst has been parsed: it goes on with `reqs`. -/
def GoesOn (later : List Bytes) (ends : Bool) (reqs : List Request) : Prop :=
  ∀ s net delivered, s.remaining = [] → s.buf.length ≤ maxRead → Extends later ends s net →
    serveLoop.run ⟨net, delivered⟩ = (serveRequests ends reqs).after delivered

/-- The requests of a burst, one after the other. -/
theorem run_of_burst (fits : b.Fits) (settled : s.buf.length ≤ maxRead)
    (bytes : s.remaining = b.bytes) (longer : Extends later ends s net)
    (goesOn : GoesOn later ends reqs) :
    serveLoop.run ⟨net, delivered⟩ =
      (serveRequests ends (b.map Sending.received ++ reqs)).after delivered := by
  induction b generalizing s net delivered with
  | nil => exact goesOn s net delivered bytes settled longer
  | cons m b ih =>
      have readable := fits.readable m List.mem_cons_self
      have front : s.remaining =
          ((Message.request m.req).sent m.ops).flatten ++ Burst.bytes b := bytes
      obtain ⟨t, run, takes⟩ := Request.parse_of_request readable.spelled readable.plain
        readable.unsent readable.readable settled front fits.endsItself
      have once : (parseRequest s).calls = [some m.received] := by
        rw [run]
        rfl
      obtain ⟨once', longer'⟩ := calls_extends longer once
      have step : serveStep ⟨net, delivered⟩ = _ := serveStep_of_calls once'
      rw [List.map_cons, List.cons_append]
      cases keeps : m.received.keepAlive with
      | false =>
          rw [serveRequests_closes keeps]
          apply Loop.run_of_halt
          change serveStep ⟨net, delivered⟩ = _
          rw [step, keeps]
          exact if_neg Bool.false_ne_true
      | true =>
          rw [serveRequests_keepAlive keeps]
          rw [keeps, if_pos rfl] at step
          rw [Loop.run_of_step (show serveLoop.step ⟨net, delivered⟩ = _ from step)]
          rw [run] at longer'
          exact ih fits.tail (takes.settled settled) takes.remaining longer'

/-- Behind a burst the next one arrives, in reads of its own. -/
theorem goesOn_of_bursts (fits : ∀ b ∈ bursts, b.Fits)
    (arrives : List.Forall₂ (fun b block => block.flatten = Burst.bytes b) bursts blocks) :
    GoesOn blocks.flatten ends (bursts.flatten.map Sending.received) := by
  induction arrives with
  | nil =>
      intro s net delivered empty _ longer
      have nothing : net.remaining = [] := by
        rw [longer.remaining, empty]
        rfl
      rw [run_of_nothing nothing, longer.ended]
      rfl
  | @cons b block bursts blocks bytes _ ih =>
      rcases List.forall_mem_cons.mp fits with ⟨first, others⟩
      intro s net delivered empty settled longer
      obtain ⟨next, buf, isNext, longer'⟩ := longer.split
      rw [List.flatten_cons, List.map_append]
      refine run_of_burst (s := next) first (buf ▸ settled) ?_ longer' (ih others)
      rw [isNext, empty, bytes]
      rfl

theorem serve_of_bursts (fits : ∀ b ∈ bursts, b.Fits)
    (arrives : List.Forall₂ (fun b block => block.flatten = Burst.bytes b) bursts blocks)
    (bring : ∀ block ∈ blocks, ∀ read ∈ block, read ≠ []) (empty : net.buf = [])
    (reads : net.reads = blocks.flatten) :
    serve net = serveRequests net.ended (bursts.flatten.map Sending.received) := by
  have longer : Extends blocks.flatten net.ended
      (⟨[], [], List.forall_mem_nil _, net.ended⟩ : Net) net := by
    refine ⟨empty, reads, fun read member => ?_, rfl⟩
    obtain ⟨block, isBlock, inBlock⟩ := List.mem_flatten.mp member
    exact bring block isBlock read inBlock
  exact goesOn_of_bursts fits arrives _ net [] rfl (Nat.zero_le _) longer

/-- **Bursts of requests are served.** However the bytes of each burst are cut
into reads, the server delivers the requests that were sent, in their order, up
to the first that does not ask to keep the connection, and comes to the end
that these requests give it. -/
theorem bursts_are_served (fits : ∀ b ∈ bursts, b.Fits)
    (arrives : List.Forall₂ (fun b block => block.flatten = Burst.bytes b) bursts blocks)
    (bring : ∀ block ∈ blocks, ∀ read ∈ block, read ≠ []) (empty : net.buf = [])
    (reads : net.reads = blocks.flatten) :
    (serve net).delivered = (bursts.flatten.map Sending.received).takeWhile (·.keepAlive) ++
        ((bursts.flatten.map Sending.received).dropWhile (·.keepAlive)).take 1 ∧
      ((serve net).outcome = .closed ↔
        ∃ req ∈ bursts.flatten.map Sending.received, req.keepAlive = false) := by
  rw [serve_of_bursts fits arrives bring empty reads]
  exact ⟨serveRequests_delivered _ _, serveRequests_closed_iff _ _⟩

/-- A request that asks to keep the connection, and the next one. -/
def twoRequests : Burst :=
  [⟨Request.search (str "/a") [], [.setHeader (str "Connection") (str "keep-alive")]⟩,
    ⟨Request.search (str "/b") [], [.write (str "x")]⟩]

theorem twoRequests_fits : twoRequests.Fits where
  readable := by decide +kernel
  ends := List.forall_mem_singleton.mpr (.inr rfl)

/-- Their bytes in two reads. -/
def twoReads : List Bytes := [twoRequests.bytes.take 7, twoRequests.bytes.drop 7]

theorem flatten_twoReads : twoReads.flatten = twoRequests.bytes := by
  rw [twoReads, List.flatten_cons, List.flatten_singleton, List.take_append_drop]

theorem twoReads_bring : ∀ read ∈ twoReads, read ≠ [] := by
  decide +kernel

theorem twoReads_bounded : ∀ read ∈ twoReads, read.length ≤ maxRead := by
  decide +kernel

/-- A connection that brings them. -/
def twoReadsNet : Net := ⟨[], [twoReads].flatten, by simpa using twoReads_bounded, true⟩

theorem bursts_are_served_of_two :
    (serve twoReadsNet).delivered = twoRequests.map Sending.received := by
  have arrives : List.Forall₂ (fun b block => block.flatten = Burst.bytes b)
      [twoRequests] [twoReads] := .cons flatten_twoReads .nil
  have empty : twoReadsNet.buf = [] := rfl
  have served := bursts_are_served (List.forall_mem_singleton.mpr twoRequests_fits) arrives
    (List.forall_mem_singleton.mpr twoReads_bring) empty rfl
  rw [served.1]
  decide +kernel

end Serve

end Ahttpd

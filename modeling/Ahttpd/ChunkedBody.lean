import Ahttpd.Basis.Loop
import Ahttpd.Input
import Ahttpd.Package

/-!
# The chunked body

`read_chunked_body` queues up to three reads at a time: the data that is
missing, the line end behind it, and the next size line. `chunkLoop` runs that
queue callback by callback. `chunkRound` is what one trip from a size line to
the next comes to, with all that an early end does to the reads still queued,
and `readChunkedBody_eq` proves that the queue does nothing else. The number of
times the handler is called is then read off the rounds
(`calls_readChunkedBody_iff`).
-/

namespace Ahttpd

open Basis

/-- `STACK_BUFF_SIZE`. -/
abbrev stackBuffSize : Nat := 1024 * 1024

/-- The limit of `in.ignore`. -/
abbrev ignoreLimit : Nat := 0x7FFFFFFF

/-- How a run of the parser comes to rest. -/
inductive Ending
  | finished
  /-- A read has not completed. -/
  | waiting
  | threw (error : TokenError)
  deriving DecidableEq

/-- What a run did: its handler calls, with a package or with `nullptr`, and the
input it left. -/
structure Completion (α : Type*) where
  calls : List (Option α)
  net : Net
  ending : Ending

/-! ## The queue of reads -/

/-- A queued read with what its callback has captured. -/
inductive ChunkOp
  /-- The size line. -/
  | size
  /-- The part of the data that was not buffered. -/
  | data (length need : Nat)
  /-- The line end behind the data. -/
  | trail (length : Nat)

structure ChunkState where
  queue : List ChunkOp
  net : Net
  pac : Package
  calls : List (Option Package)

/-- `in >> std::hex >> length` and `in.ignore(0x7FFFFFFF, '\n')`: the size and
what is left in the buffer. A stream that has failed ignores nothing. -/
def readSize (buf : Bytes) : Nat × Bytes :=
  let extracted := extractHex buf
  (extracted.value,
    if extracted.good then ignoreLine ignoreLimit extracted.rest else extracted.rest)

/-- `int need_read = length - already_read`. -/
def needRead (length already : Nat) : Int := toInt32 (length - already)

/-- The read that an operation starts. -/
def ChunkOp.read : ChunkOp → Net → ReadResult Net
  | size, net => net.readUntil LF
  | data _ need, net => net.readExactly need
  | trail _, net => net.readUntil LF

namespace ChunkState

def push (s : ChunkState) (op : ChunkOp) : ChunkState := { s with queue := s.queue ++ [op] }

/-- `handler(nullptr)`: the handler of `parseRequest` and `parseResponse`
discards the connection first. -/
def reject (s : ChunkState) : ChunkState :=
  { s with pac := s.pac.discardConnection, calls := s.calls ++ [none] }

/-- `handler(pac)`. -/
def accept (s : ChunkState) : ChunkState := { s with calls := s.calls ++ [some s.pac] }

/-- `in.read(buf, length)` and `out().write(buf, length)`. The buffer holds
`length` bytes whenever this is reached. -/
def takeData (s : ChunkState) (length : Nat) : ChunkState :=
  { s with net := s.net.withBuf (s.net.buf.drop length)
           pac := s.pac.write (s.net.buf.take length) }

/-- A call of `read_chunked_body`. -/
def readChunkedBody (s : ChunkState) : ChunkState := if !s.pac.connected then s else s.push .size

/-- The data of a chunk: a read is queued for what is missing of it. -/
def startData (s : ChunkState) (length : Nat) : ChunkState :=
  let need := needRead length s.net.buf.length
  if 0 < need then s.push (.data length need.toNat)
  else if 0 < length then s.takeData length
  else s

/-- The callback of the size line. -/
def onSize (s : ChunkState) : ChunkState :=
  if !s.pac.connected then s
  else
    let (length, rest) := readSize s.net.buf
    let s := { s with net := s.net.withBuf rest }
    if stackBuffSize < length then s.reject
    else
      let s := (s.startData length).push (.trail length)
      if length ≠ 0 then s.readChunkedBody else s

/-- The callback of the data. -/
def onData (s : ChunkState) (length : Nat) : ChunkState :=
  if !s.pac.connected then s else s.takeData length

/-- The callback of the line end. -/
def onTrail (s : ChunkState) (length : Nat) : ChunkState :=
  if !s.pac.connected then s
  else
    let s := { s with net := s.net.withBuf (ignoreLine ignoreLimit s.net.buf) }
    if length = 0 then s.accept else s

end ChunkState

/-- The callback of an operation whose read has succeeded. -/
def ChunkOp.onRead : ChunkOp → ChunkState → ChunkState
  | size, s => s.onSize
  | data length _, s => s.onData length
  | trail length, s => s.onTrail length

/-- The callback of an operation whose read has failed. -/
def ChunkOp.onError : ChunkOp → ChunkState → ChunkState
  | size, s => s.reject
  | data _ _, s => s.reject
  | trail length, s => if length ≠ 0 then s.reject else s

/-- The front operation completes and leaves the queue. -/
def chunkStep (s : ChunkState) : ChunkState ⊕ Completion Package :=
  match s.queue with
  | [] => .inr ⟨s.calls, s.net, .finished⟩
  | op :: queue =>
      match op.read s.net with
      | .pending net => .inr ⟨s.calls, net, .waiting⟩
      | .error net => .inl (op.onError { s with queue, net })
      | .ok net => .inl (op.onRead { s with queue, net })

/-! ## The queue runs empty -/

/-- A size line brings two more reads, and a third when it takes a byte. -/
def ChunkOp.weight : ChunkOp → Nat
  | size => 3
  | data _ _ => 1
  | trail _ => 1

def ChunkState.rank (s : ChunkState) : Nat :=
  3 * s.net.remaining.length + (s.queue.map ChunkOp.weight).sum

theorem readSize_suffix (buf : Bytes) : (readSize buf).2 <:+ buf := by
  have first := extractHex_suffix buf
  simp only [readSize]
  split
  · exact (ignoreLine_suffix _ _).trans first
  · exact first

theorem length_readSize_lt {buf : Bytes} (nonzero : (readSize buf).1 ≠ 0) :
    (readSize buf).2.length < buf.length := by
  have first := length_extractHex_lt nonzero
  simp only [readSize]
  split
  · exact Nat.lt_of_le_of_lt (ignoreLine_suffix _ _).length_le first
  · exact first

namespace ChunkState

variable {s : ChunkState}

@[simp] theorem rank_push (op : ChunkOp) : (s.push op).rank = s.rank + op.weight := by
  simp [rank, push, Nat.add_assoc]

@[simp] theorem rank_reject : s.reject.rank = s.rank := rfl

/-- Dropping bytes from the front of the buffer. -/
theorem rank_withBuf_le {buf : Bytes} (shorter : buf.length ≤ s.net.buf.length) :
    ({ s with net := s.net.withBuf buf } : ChunkState).rank ≤ s.rank := by
  simp only [rank, Segmented.remaining, Segmented.withBuf_buf, Segmented.withBuf_reads,
    List.length_append]
  omega

theorem rank_withBuf_lt {buf : Bytes} (shorter : buf.length < s.net.buf.length) :
    ({ s with net := s.net.withBuf buf } : ChunkState).rank + 3 ≤ s.rank := by
  simp only [rank, Segmented.remaining, Segmented.withBuf_buf, Segmented.withBuf_reads,
    List.length_append]
  omega

theorem rank_takeData_le (length : Nat) : (s.takeData length).rank ≤ s.rank :=
  rank_withBuf_le (s := s) (by rw [List.length_drop]; omega)

theorem rank_readChunkedBody_le : s.readChunkedBody.rank ≤ s.rank + 3 := by
  unfold readChunkedBody
  split
  · omega
  · rw [rank_push]
    exact Nat.le_refl _

theorem rank_onData_le (length : Nat) : (s.onData length).rank ≤ s.rank := by
  unfold onData
  split
  · exact Nat.le_refl _
  · exact rank_takeData_le length

theorem rank_onTrail_le (length : Nat) : (s.onTrail length).rank ≤ s.rank := by
  have shorter := rank_withBuf_le (s := s) (ignoreLine_suffix ignoreLimit s.net.buf).length_le
  unfold onTrail
  split
  · exact Nat.le_refl _
  · dsimp only
    split
    · exact shorter
    · exact shorter

theorem rank_startData_le (length : Nat) : (s.startData length).rank ≤ s.rank + 1 := by
  unfold startData
  dsimp only
  split
  · rw [rank_push]
    exact Nat.le_refl _
  · split
    · exact Nat.le_succ_of_le (rank_takeData_le length)
    · exact Nat.le_succ _

theorem rank_onSize_le : s.onSize.rank ≤ s.rank + 2 := by
  unfold onSize
  split
  · omega
  · obtain ⟨t, isT⟩ : ∃ t : ChunkState,
        t = { s with net := s.net.withBuf (readSize s.net.buf).2 } :=
      ⟨_, rfl⟩
    have shorter : t.rank ≤ s.rank :=
      isT ▸ rank_withBuf_le (readSize_suffix s.net.buf).length_le
    have data := rank_startData_le (s := t) (readSize s.net.buf).1
    have trail := rank_push (s := t.startData (readSize s.net.buf).1)
      (.trail (readSize s.net.buf).1)
    rw [ChunkOp.weight] at trail
    dsimp only
    rw [← isT]
    split
    · rw [rank_reject]
      omega
    · split
      · rename_i nonzero
        have strictly : t.rank + 3 ≤ s.rank :=
          isT ▸ rank_withBuf_lt (length_readSize_lt nonzero)
        have again := rank_readChunkedBody_le
          (s := (t.startData (readSize s.net.buf).1).push (.trail (readSize s.net.buf).1))
        omega
      · omega

end ChunkState

/-- A read leaves the bytes of the input as they are. -/
theorem ChunkOp.remaining_of_read {op : ChunkOp} {net t : Net}
    (read : op.read net = .ok t ∨ op.read net = .error t) : t.remaining = net.remaining := by
  rcases op with _ | ⟨length, need⟩ | length <;> rcases read with read | read
  · exact (Segmented.readUntil_ok read).2.1.remaining
  · rw [(Segmented.readUntil_error read).1, Segmented.absorbed_remaining]
  · rcases Segmented.readExactly_ok read with ⟨-, -, -, same⟩
    exact same.remaining
  · rw [(Segmented.readExactly_error read).1, Segmented.absorbed_remaining]
  · exact (Segmented.readUntil_ok read).2.1.remaining
  · rw [(Segmented.readUntil_error read).1, Segmented.absorbed_remaining]

theorem rank_chunkStep_lt (s t : ChunkState) (goes : chunkStep s = .inl t) : t.rank < s.rank := by
  obtain ⟨queue, net, pac, calls⟩ := s
  unfold chunkStep at goes
  split at goes
  · cases goes
  · rename_i op queue' isQueue
    obtain rfl : queue = op :: queue' := isQueue
    have popped : ∀ u : Net, u.remaining = net.remaining →
        (⟨op :: queue', net, pac, calls⟩ : ChunkState).rank =
          (⟨queue', u, pac, calls⟩ : ChunkState).rank + op.weight := by
      intro u same
      simp only [ChunkState.rank, same, List.map_cons, List.sum_cons]
      omega
    split at goes
    · cases goes
    · rename_i u read
      rw [popped u (ChunkOp.remaining_of_read (.inr read)), ← Sum.inl.inj goes]
      rcases op with _ | ⟨length, need⟩ | length
      · simp only [ChunkOp.onError, ChunkState.rank_reject, ChunkOp.weight]
        omega
      · simp only [ChunkOp.onError, ChunkState.rank_reject, ChunkOp.weight]
        omega
      · simp only [ChunkOp.onError, ChunkOp.weight]
        split <;> simp
    · rename_i u read
      rw [popped u (ChunkOp.remaining_of_read (.inl read)), ← Sum.inl.inj goes]
      rcases op with _ | ⟨length, need⟩ | length
      · exact Nat.lt_of_le_of_lt ChunkState.rank_onSize_le (by simp only [ChunkOp.weight]; omega)
      · exact Nat.lt_of_le_of_lt (ChunkState.rank_onData_le _) (Nat.lt_succ_self _)
      · exact Nat.lt_of_le_of_lt (ChunkState.rank_onTrail_le _) (Nat.lt_succ_self _)

/-- The queue of reads, callback after callback. -/
def chunkLoop : Loop ChunkState (Completion Package) where
  step := chunkStep
  rank := ChunkState.rank
  rank_lt := rank_chunkStep_lt

/-- `read_chunked_body` on a connection with nothing queued. -/
def readChunkedBody (pac : Package) (net : Net) : Completion Package :=
  chunkLoop.run (ChunkState.readChunkedBody ⟨[], net, pac, []⟩)

/-! ## One round -/

/-- The line end behind the data, and with it the end of the round. When the
input ends here, the handler is not called behind the last chunk, and twice
behind any other: the next size line is queued already. -/
def trailRound (length : Nat) (pac : Package) (net : Net) :
    (Package × Net) ⊕ Completion Package :=
  match net.readUntil LF with
  | .pending net => .inr ⟨[], net, .waiting⟩
  | .error net => .inr ⟨if length = 0 then [] else [none, none], net, .finished⟩
  | .ok net =>
      let net := net.withBuf (ignoreLine ignoreLimit net.buf)
      if length = 0 then .inr ⟨[some pac], net, .finished⟩ else .inl (pac, net)

/-- The handler calls when the input ends in the data. A line end among the
data lets the later callbacks see the discarded connection; without one they
fail as well. -/
def dataErrorCalls (length : Nat) (net : Net) : List (Option Package) :=
  if LF ∈ net.buf ∨ length = 0 then [none] else [none, none, none]

/-- The data that was not buffered, and the rest of the round. -/
def dataRound (length need : Nat) (pac : Package) (net : Net) :
    (Package × Net) ⊕ Completion Package :=
  match net.readExactly need with
  | .pending net => .inr ⟨[], net, .waiting⟩
  | .error net => .inr ⟨dataErrorCalls length net, net, .finished⟩
  | .ok net =>
      trailRound length (pac.write (net.buf.take length)) (net.withBuf (net.buf.drop length))

/-- A round from the data on: some of it may be buffered. -/
def startRound (length : Nat) (pac : Package) (net : Net) :
    (Package × Net) ⊕ Completion Package :=
  let need := needRead length net.buf.length
  if 0 < need then dataRound length need.toNat pac net
  else trailRound length (pac.write (net.buf.take length)) (net.withBuf (net.buf.drop length))

/-- From one size line to the next, or to the end of the body. -/
def chunkRound : Package × Net → (Package × Net) ⊕ Completion Package
  | (pac, net) =>
      match net.readUntil LF with
      | .pending net => .inr ⟨[], net, .waiting⟩
      | .error net => .inr ⟨[none], net, .finished⟩
      | .ok net =>
          let (length, rest) := readSize net.buf
          let net := net.withBuf rest
          if stackBuffSize < length then .inr ⟨[none], net, .finished⟩
          else startRound length pac net

/-- The bytes that are not consumed, a round started on a size line. -/
theorem remaining_of_trailRound {length : Nat} {pac pac' : Package} {net net' : Net}
    (goes : trailRound length pac net = .inl (pac', net')) :
    length ≠ 0 ∧ pac' = pac ∧ net'.remaining.length ≤ net.remaining.length ∧
      net'.ended = net.ended := by
  unfold trailRound at goes
  split at goes
  · cases goes
  · cases goes
  · rename_i t read
    rcases Segmented.readUntil_ok read with ⟨-, same, -⟩
    dsimp only at goes
    split at goes
    · cases goes
    · rename_i nonzero
      rcases Prod.mk.inj (Sum.inl.inj goes) with ⟨rfl, rfl⟩
      refine ⟨nonzero, rfl, ?_, same.ended⟩
      have shorter := (ignoreLine_suffix ignoreLimit t.buf).length_le
      rw [← same.remaining, Segmented.withBuf_remaining, Segmented.remaining, List.length_append,
        List.length_append]
      omega

/-- What a round that goes on has done. -/
structure RoundGoes (s t : Package × Net) : Prop where
  consumes : t.2.remaining.length < s.2.remaining.length
  ended : t.2.ended = s.2.ended
  connected : t.1.connected = s.1.connected

theorem roundGoes_of_chunkRound {s t : Package × Net} (goes : chunkRound s = .inl t) :
    RoundGoes s t := by
  obtain ⟨pac, net⟩ := s
  obtain ⟨pac', net'⟩ := t
  simp only [chunkRound] at goes
  split at goes
  · cases goes
  · cases goes
  · rename_i u read
    rcases Segmented.readUntil_ok read with ⟨-, same, -⟩
    split at goes
    · cases goes
    · have suffix' := (readSize_suffix u.buf).length_le
      have consumed : ∀ {length' : Nat}, (readSize u.buf).1 ≠ 0 →
          length' ≤ (readSize u.buf).2.length + u.reads.flatten.length →
          length' < net.remaining.length := by
        intro length' nonzero le
        have strictly := length_readSize_lt nonzero
        rw [← same.remaining, Segmented.remaining, List.length_append]
        omega
      simp only [startRound] at goes
      split at goes
      · unfold dataRound at goes
        split at goes
        · cases goes
        · cases goes
        · rename_i v read'
          rcases Segmented.readExactly_ok read' with ⟨-, -, -, same'⟩
          obtain ⟨nonzero, rfl, shorter, ended⟩ := remaining_of_trailRound goes
          refine ⟨consumed nonzero (shorter.trans ?_), ended.trans (same'.ended.trans same.ended),
            rfl⟩
          have bytes := congrArg List.length same'.remaining
          simp only [Segmented.remaining, Segmented.withBuf_buf, Segmented.withBuf_reads,
            List.length_append, List.length_drop] at bytes ⊢
          omega
      · obtain ⟨nonzero, rfl, shorter, ended⟩ := remaining_of_trailRound goes
        refine ⟨consumed nonzero (shorter.trans ?_), ended.trans same.ended, rfl⟩
        simp only [Segmented.remaining, Segmented.withBuf_buf, Segmented.withBuf_reads,
          List.length_append, List.length_drop]
        omega

/-- The body, round after round. -/
def roundLoop : Loop (Package × Net) (Completion Package) where
  step := chunkRound
  rank s := s.2.remaining.length
  rank_lt _ _ goes := (roundGoes_of_chunkRound goes).consumes

/-! ## The queue does the rounds -/

section Queue

variable {op : ChunkOp} {queue : List ChunkOp} {net t : Net} {pac : Package}
  {calls : List (Option Package)} {length need : Nat}

theorem run_of_ok (op : ChunkOp) (read : op.read net = .ok t) :
    chunkLoop.run ⟨op :: queue, net, pac, calls⟩ =
      chunkLoop.run (op.onRead ⟨queue, t, pac, calls⟩) := by
  apply Loop.run_of_step
  simp only [chunkLoop, chunkStep, read]

theorem run_of_error (op : ChunkOp) (read : op.read net = .error t) :
    chunkLoop.run ⟨op :: queue, net, pac, calls⟩ =
      chunkLoop.run (op.onError ⟨queue, t, pac, calls⟩) := by
  apply Loop.run_of_step
  simp only [chunkLoop, chunkStep, read]

theorem run_of_pending (read : op.read net = .pending t) :
    chunkLoop.run ⟨op :: queue, net, pac, calls⟩ = ⟨calls, t, .waiting⟩ := by
  apply Loop.run_of_halt
  simp only [chunkLoop, chunkStep, read]

theorem run_of_empty : chunkLoop.run ⟨[], net, pac, calls⟩ = ⟨calls, net, .finished⟩ :=
  Loop.run_of_halt rfl

/-- A round or the whole run behind it. -/
def afterRound : (Package × Net) ⊕ Completion Package → Completion Package
  | .inl (pac, net) => chunkLoop.run ⟨[.size], net, pac, []⟩
  | .inr completion => completion

/-- The reads queued behind a line end. -/
def nextSize (length : Nat) : List ChunkOp := if length ≠ 0 then [.size] else []

theorem run_trail (connected : pac.connected = true) :
    chunkLoop.run ⟨.trail length :: nextSize length, net, pac, []⟩ =
      afterRound (trailRound length pac net) := by
  unfold trailRound
  split
  · rename_i t read
    exact run_of_pending read
  · rename_i t read
    rcases Segmented.readUntil_error read with ⟨rfl, ended, absent⟩
    rw [run_of_error (.trail length) read]
    by_cases last : length = 0
    · simp only [ChunkOp.onError, nextSize, last, ne_eq, not_true, if_false, if_true, afterRound]
      exact run_of_empty
    · simp only [ChunkOp.onError, nextSize, last, ne_eq, not_false_iff, if_true, if_false,
        afterRound, ChunkState.reject, List.nil_append]
      rw [run_of_error .size (Segmented.readUntil_absorbed_of_not_mem absent ended)]
      exact run_of_empty
  · rename_i t read
    rw [run_of_ok (.trail length) read]
    by_cases last : length = 0
    · simp only [ChunkOp.onRead, ChunkState.onTrail, connected, Bool.not_true, Bool.false_eq_true,
        nextSize, last, ne_eq, not_true, if_false, if_true, afterRound, ChunkState.accept,
        List.nil_append]
      exact run_of_empty
    · simp only [ChunkOp.onRead, ChunkState.onTrail, connected, Bool.not_true, Bool.false_eq_true,
        nextSize, last, ne_eq, not_false_iff, if_false, if_true, afterRound]

/-- Callbacks that find the connection discarded do nothing. -/
theorem run_of_discarded {queue : List ChunkOp} (discarded : pac.connected = false)
    (lines : ∀ op ∈ queue, op = .size ∨ ∃ length, op = .trail length)
    (member : LF ∈ net.remaining) :
    chunkLoop.run ⟨queue, net.absorbed, pac, calls⟩ = ⟨calls, net.absorbed, .finished⟩ := by
  induction queue with
  | nil => exact run_of_empty
  | cons op queue ih =>
      rcases List.forall_mem_cons.mp lines with ⟨isLine, later⟩
      rcases isLine with rfl | ⟨length, rfl⟩
      · rw [run_of_ok .size (Segmented.readUntil_absorbed member)]
        simp only [ChunkOp.onRead, ChunkState.onSize, discarded, Bool.not_false, if_true]
        exact ih later
      · rw [run_of_ok (.trail length) (Segmented.readUntil_absorbed member)]
        simp only [ChunkOp.onRead, ChunkState.onTrail, discarded, Bool.not_false, if_true]
        exact ih later

theorem run_data_error (read : net.readExactly need = .error t) :
    chunkLoop.run ⟨.data length need :: .trail length :: nextSize length, net, pac, []⟩ =
      ⟨dataErrorCalls length t, t, .finished⟩ := by
  rcases Segmented.readExactly_error read with ⟨rfl, ended, -⟩
  rw [run_of_error (.data length need) read, dataErrorCalls, Segmented.absorbed_buf]
  simp only [ChunkOp.onError, ChunkState.reject, List.nil_append]
  by_cases member : LF ∈ net.remaining
  · rw [if_pos (.inl member)]
    refine run_of_discarded rfl ?_ member
    intro op queued
    rcases List.mem_cons.mp queued with rfl | queued
    · exact .inr ⟨_, rfl⟩
    · unfold nextSize at queued
      split at queued
      · exact .inl (List.mem_singleton.mp queued)
      · exact absurd queued List.not_mem_nil
  · have fails := Segmented.readUntil_absorbed_of_not_mem member ended
    rw [run_of_error (.trail length) fails]
    by_cases last : length = 0
    · simp only [ChunkOp.onError, nextSize, last, ne_eq, not_true, if_false, or_true, if_true]
      exact run_of_empty
    · simp only [ChunkOp.onError, nextSize, last, ne_eq, not_false_iff, if_true,
        ChunkState.reject, List.singleton_append, member, or_self, if_false]
      rw [run_of_error .size fails]
      exact run_of_empty

theorem run_data (connected : pac.connected = true) :
    chunkLoop.run ⟨.data length need :: .trail length :: nextSize length, net, pac, []⟩ =
      afterRound (dataRound length need pac net) := by
  unfold dataRound
  split
  · rename_i t read
    exact run_of_pending read
  · rename_i t read
    exact run_data_error read
  · rename_i t read
    rw [run_of_ok (.data length need) read]
    simp only [ChunkOp.onRead, ChunkState.onData, connected, Bool.not_true, Bool.false_eq_true,
      if_false, ChunkState.takeData]
    exact run_trail connected

theorem run_round (connected : pac.connected = true) :
    chunkLoop.run ⟨[.size], net, pac, []⟩ = afterRound (chunkRound (pac, net)) := by
  simp only [chunkRound]
  split
  · rename_i t read
    exact run_of_pending read
  · rename_i t read
    rw [run_of_error .size read]
    exact run_of_empty
  · rename_i t read
    rw [run_of_ok .size read]
    simp only [ChunkOp.onRead, ChunkState.onSize, connected, Bool.not_true, Bool.false_eq_true,
      if_false]
    obtain ⟨sized, isSized⟩ : ∃ sized, readSize t.buf = sized := ⟨_, rfl⟩
    obtain ⟨length, rest⟩ := sized
    simp only [isSized]
    by_cases large : stackBuffSize < length
    · rw [if_pos large, if_pos large]
      exact run_of_empty
    · rw [if_neg large, if_neg large]
      have queued : ∀ s : ChunkState, s.pac.connected = true →
          (if length ≠ 0 then s.readChunkedBody else s) =
            { s with queue := s.queue ++ nextSize length } := by
        intro s connected
        unfold nextSize ChunkState.readChunkedBody
        rw [connected]
        split
        · rfl
        · rw [List.append_nil]
      rw [startRound, Segmented.withBuf_buf]
      by_cases missing : 0 < needRead length rest.length
      · have start : (⟨[], t.withBuf rest, pac, []⟩ : ChunkState).startData length =
            ⟨[.data length (needRead length rest.length).toNat], t.withBuf rest, pac, []⟩ :=
          if_pos missing
        rw [start, queued _ connected, if_pos missing]
        exact run_data connected
      · have start : (⟨[], t.withBuf rest, pac, []⟩ : ChunkState).startData length =
            ⟨[], t.withBuf (rest.drop length), pac.write (rest.take length), []⟩ := by
          apply (if_neg missing).trans
          split
          · rfl
          · rename_i nonzero
            obtain rfl := Nat.eq_zero_of_not_pos nonzero
            rw [List.take_zero, List.drop_zero, Package.write_nil]
        rw [start, queued _ connected, if_neg missing]
        exact run_trail connected

/-- **The queue of reads does the rounds and nothing else.** -/
theorem readChunkedBody_eq (connected : pac.connected = true) :
    readChunkedBody pac net = roundLoop.run (pac, net) := by
  have start : (⟨[], net, pac, []⟩ : ChunkState).readChunkedBody = ⟨[.size], net, pac, []⟩ := by
    simp only [ChunkState.readChunkedBody, connected, Bool.not_true, Bool.false_eq_true, if_false]
    rfl
  rw [readChunkedBody, start]
  refine (roundLoop.run_induction (motive := fun s r => s.1.connected = true →
    chunkLoop.run ⟨[.size], s.2, s.1, []⟩ = r) ?_ ?_ (pac, net)) connected
  · intro s result halts connected
    rw [run_round connected, show chunkRound (s.1, s.2) = _ from halts]
    rfl
  · intro s t goes ih connected
    rw [run_round connected, show chunkRound (s.1, s.2) = _ from goes]
    exact ih ((roundGoes_of_chunkRound goes).connected.trans connected)

end Queue

/-! ## What a delivered body leaves -/

/-- A run that delivers a package does so in its only call, and has not made up
input. -/
def Completion.DeliversOnce {α : Type} (net : Net) (c : Completion α) : Prop :=
  ∀ pac, some pac ∈ c.calls →
    c.calls = [some pac] ∧ c.net.remaining.length ≤ net.remaining.length

section DeliversOnce

variable {pac : Package} {net : Net} {length need : Nat} {completion : Completion Package}

theorem deliversOnce_of_trailRound (halts : trailRound length pac net = .inr completion) :
    completion.DeliversOnce net := by
  intro pac' member
  unfold trailRound at halts
  split at halts
  · obtain rfl := (Sum.inr.inj halts).symm
    exact absurd member List.not_mem_nil
  · obtain rfl := (Sum.inr.inj halts).symm
    dsimp only at member
    split at member <;> simp at member
  · rename_i t read
    rcases Segmented.readUntil_ok read with ⟨-, same, -⟩
    dsimp only at halts
    split at halts
    · obtain rfl := (Sum.inr.inj halts).symm
      have shorter := (ignoreLine_suffix ignoreLimit t.buf).length_le
      refine ⟨congrArg (fun pac => [pac]) (List.mem_singleton.mp member).symm, ?_⟩
      rw [← same.remaining, Segmented.withBuf_remaining, Segmented.remaining, List.length_append,
        List.length_append]
      omega
    · cases halts

theorem deliversOnce_of_dataRound (halts : dataRound length need pac net = .inr completion) :
    completion.DeliversOnce net := by
  unfold dataRound at halts
  split at halts
  · obtain rfl := (Sum.inr.inj halts).symm
    exact fun _ member => absurd member List.not_mem_nil
  · obtain rfl := (Sum.inr.inj halts).symm
    intro pac' member
    simp only [dataErrorCalls] at member
    split at member <;> simp at member
  · rename_i t read
    rcases Segmented.readExactly_ok read with ⟨-, -, -, same⟩
    intro pac' member
    obtain ⟨once, shorter⟩ := deliversOnce_of_trailRound halts pac' member
    refine ⟨once, shorter.trans ?_⟩
    rw [← same.remaining, Segmented.withBuf_remaining, Segmented.remaining, List.length_append,
      List.length_append, List.length_drop]
    omega

theorem deliversOnce_of_chunkRound (halts : chunkRound (pac, net) = .inr completion) :
    completion.DeliversOnce net := by
  simp only [chunkRound] at halts
  split at halts
  · obtain rfl := (Sum.inr.inj halts).symm
    exact fun _ member => absurd member List.not_mem_nil
  · obtain rfl := (Sum.inr.inj halts).symm
    exact fun _ member => by simp at member
  · rename_i t read
    rcases Segmented.readUntil_ok read with ⟨-, same, -⟩
    have shorter := (readSize_suffix t.buf).length_le
    have kept : (t.withBuf (readSize t.buf).2).remaining.length ≤ net.remaining.length := by
      rw [← same.remaining, Segmented.withBuf_remaining, Segmented.remaining, List.length_append,
        List.length_append]
      omega
    split at halts
    · obtain rfl := (Sum.inr.inj halts).symm
      exact fun _ member => by simp at member
    · simp only [startRound] at halts
      split at halts
      · intro pac' member
        obtain ⟨once, shorter⟩ := deliversOnce_of_dataRound halts pac' member
        exact ⟨once, shorter.trans kept⟩
      · intro pac' member
        obtain ⟨once, shorter⟩ := deliversOnce_of_trailRound halts pac' member
        refine ⟨once, shorter.trans (Nat.le_trans ?_ kept)⟩
        simp only [Segmented.withBuf_remaining, Segmented.withBuf_buf, Segmented.withBuf_reads,
          List.length_append, List.length_drop]
        omega

theorem deliversOnce_of_readChunkedBody (connected : pac.connected = true) :
    (readChunkedBody pac net).DeliversOnce net := by
  rw [readChunkedBody_eq connected]
  refine roundLoop.run_induction (motive := fun s c => Completion.DeliversOnce s.2 c) ?_ ?_
    (pac, net)
  · intro s completion halts
    rcases s with ⟨pac, net⟩
    exact deliversOnce_of_chunkRound halts
  · intro s t goes later pac' member
    obtain ⟨once, shorter⟩ := later pac' member
    exact ⟨once, shorter.trans (Nat.le_of_lt (roundGoes_of_chunkRound goes).consumes)⟩

end DeliversOnce

/-! ## How often the handler is called -/

section NeedRead

variable {length already : Nat}

/-- Within the range of an `int` the subtraction is exact. -/
theorem needRead_eq (above : already ≤ length + 2 ^ 31) (below : length < already + 2 ^ 31) :
    needRead length already = length - already := by
  unfold needRead toInt32
  rw [Int.bmod_def]
  split <;> omega

/-- A read that is queued completes the data, even where the subtraction
wraps. -/
theorem le_of_needRead_pos (small : length ≤ stackBuffSize)
    (missing : 0 < needRead length already) :
    length ≤ already + (needRead length already).toNat := by
  unfold stackBuffSize at small
  obtain ⟨need, isNeed⟩ : ∃ need, needRead length already = need := ⟨_, rfl⟩
  rw [isNeed] at missing ⊢
  unfold needRead toInt32 at isNeed
  rw [Int.bmod_def] at isNeed
  split at isNeed <;> omega

theorem le_of_needRead_nonpos (small : length ≤ stackBuffSize)
    (buffered : ¬ 0 < needRead length already) : length ≤ already := by
  unfold stackBuffSize at small
  unfold needRead toInt32 at buffered
  rw [Int.bmod_def] at buffered
  split at buffered <;> omega

end NeedRead

/-- The input, read from a size line on, ends where the callbacks that are
still queued make up the wrong number of calls. -/
inductive BadEnd (net : Net) : Prop
  /-- The data is cut short, and there is no line end behind the size line. -/
  | inData {t : Net} {length : Nat} {rest : Bytes} (read : net.readUntil LF = .ok t)
      (size : readSize t.buf = (length, rest)) (small : length ≤ stackBuffSize)
      (nonzero : length ≠ 0)
      (short : (t.reads.flatten.length : Int) < needRead length rest.length)
      (absent : LF ∉ rest ++ t.reads.flatten)
  /-- The data is there, and there is no line end behind it. -/
  | behindData {t : Net} {length : Nat} {rest : Bytes} (read : net.readUntil LF = .ok t)
      (size : readSize t.buf = (length, rest)) (small : length ≤ stackBuffSize)
      (whole : needRead length rest.length ≤ t.reads.flatten.length)
      (absent : LF ∉ (rest ++ t.reads.flatten).drop length)

section Calls

variable {pac : Package} {net t : Net} {length : Nat} {rest : Bytes}
  {completion : Completion Package} {next : Package × Net}

/-- Which ends are bad depends on what follows the size line. -/
theorem badEnd_iff (read : net.readUntil LF = .ok t) (size : readSize t.buf = (length, rest)) :
    BadEnd net ↔ length ≤ stackBuffSize ∧
      (((t.reads.flatten.length : Int) < needRead length rest.length ∧ length ≠ 0 ∧
          LF ∉ rest ++ t.reads.flatten) ∨
        (needRead length rest.length ≤ t.reads.flatten.length ∧
          LF ∉ (rest ++ t.reads.flatten).drop length)) := by
  constructor
  · intro bad
    rcases bad with ⟨read', size', small, nonzero, short, absent⟩ |
      ⟨read', size', small, whole, absent⟩
    all_goals
      obtain rfl := ReadResult.ok.inj (read.symm.trans read')
      rcases Prod.mk.inj (size.symm.trans size') with ⟨rfl, rfl⟩
    · exact ⟨small, .inl ⟨short, nonzero, absent⟩⟩
    · exact ⟨small, .inr ⟨whole, absent⟩⟩
  · intro ends
    rcases ends with ⟨small, ⟨short, nonzero, absent⟩ | ⟨whole, absent⟩⟩
    · exact .inData read size small nonzero short absent
    · exact .behindData read size small whole absent

/-- At the end of a round one call has been made exactly when the line end is
there. -/
theorem calls_trailRound_iff (ended : net.ended = true)
    (halts : trailRound length pac net = .inr completion) :
    completion.calls.length = 1 ↔ LF ∈ net.remaining := by
  unfold trailRound at halts
  split at halts
  · rename_i read
    exact absurd (Segmented.readUntil_pending read) (by simp [ended])
  · rename_i read
    obtain rfl := (Sum.inr.inj halts).symm
    refine iff_of_false ?_ (Segmented.readUntil_error read).2.2
    dsimp only
    split <;> decide
  · rename_i u read
    rcases Segmented.readUntil_ok read with ⟨member, same, -⟩
    dsimp only at halts
    split at halts
    · obtain rfl := (Sum.inr.inj halts).symm
      apply iff_of_true rfl
      rw [← same.remaining]
      exact List.mem_append_left _ member
    · cases halts

theorem mem_of_trailRound_goes (goes : trailRound length pac net = .inl next) :
    LF ∈ net.remaining := by
  unfold trailRound at goes
  split at goes
  · cases goes
  · cases goes
  · rename_i u read
    rcases Segmented.readUntil_ok read with ⟨member, same, -⟩
    rw [← same.remaining]
    exact List.mem_append_left _ member

/-- The data of a round: either the input ends in it, or the round comes to the
line end behind it. -/
theorem dataRound_cases (pac : Package) (ended : net.ended = true) (small : length ≤ stackBuffSize)
    (missing : 0 < needRead length net.buf.length) :
    (net.reads.flatten.length < needRead length net.buf.length ∧
        dataRound length (needRead length net.buf.length).toNat pac net =
          .inr ⟨dataErrorCalls length net.absorbed, net.absorbed, .finished⟩) ∨
      ∃ pac' net', needRead length net.buf.length ≤ net.reads.flatten.length ∧
        dataRound length (needRead length net.buf.length).toNat pac net =
          trailRound length pac' net' ∧
        net'.ended = true ∧ net'.remaining = net.remaining.drop length := by
  unfold dataRound
  rcases Nat.lt_or_ge net.reads.flatten.length (needRead length net.buf.length).toNat with lt | le
  · rw [Segmented.readExactly_of_lt lt, Segmented.exhausted_of_ended ended]
    exact .inl ⟨by omega, rfl⟩
  · obtain ⟨u, read, buf, -, same⟩ := Segmented.readExactly_of_le le
    have whole : length ≤ u.buf.length := by
      have completes := le_of_needRead_pos small missing
      rw [buf, List.length_append, List.length_take]
      omega
    rw [read]
    refine .inr ⟨_, _, by omega, rfl, same.ended.trans ended, ?_⟩
    rw [Segmented.withBuf_remaining, ← List.drop_append_of_le_length whole]
    exact congrArg (List.drop length) same.remaining

/-- A round, started on a size line that is there. -/
theorem chunkRound_of_ok (read : net.readUntil LF = .ok t)
    (size : readSize t.buf = (length, rest)) :
    chunkRound (pac, net) =
      if stackBuffSize < length then .inr ⟨[none], t.withBuf rest, .finished⟩
      else startRound length pac (t.withBuf rest) := by
  simp only [chunkRound, read, size]

/-- The line end behind the data of a round, wherever the data was. -/
theorem trail_of_round (pac : Package) (ended : net.ended = true) (read : net.readUntil LF = .ok t)
    (size : readSize t.buf = (length, rest)) (small : length ≤ stackBuffSize)
    (whole : needRead length rest.length ≤ t.reads.flatten.length) :
    ∃ pac' net', chunkRound (pac, net) = trailRound length pac' net' ∧ net'.ended = true ∧
      net'.remaining = (rest ++ t.reads.flatten).drop length := by
  have ended' : (t.withBuf rest).ended = true := (Segmented.readUntil_ok read).2.1.ended.trans ended
  rw [chunkRound_of_ok read size, if_neg (Nat.not_lt.mpr small), startRound, Segmented.withBuf_buf]
  by_cases missing : 0 < needRead length rest.length
  · rw [if_pos missing]
    rcases dataRound_cases pac ended' small missing with ⟨short, -⟩ | ⟨pac', net', -, run, rest'⟩
    · exact absurd short (by simpa using whole)
    · exact ⟨pac', net', run, rest'⟩
  · rw [if_neg missing]
    refine ⟨_, _, rfl, ended', ?_⟩
    rw [Segmented.withBuf_remaining, Segmented.withBuf_reads,
      List.drop_append_of_le_length (le_of_needRead_nonpos small missing)]

theorem calls_chunkRound_iff (ended : net.ended = true)
    (halts : chunkRound (pac, net) = .inr completion) :
    completion.calls.length = 1 ↔ ¬ BadEnd net := by
  cases read : net.readUntil LF with
  | pending t => exact absurd (Segmented.readUntil_pending read) (by simp [ended])
  | error t =>
      simp only [chunkRound, read] at halts
      obtain rfl := (Sum.inr.inj halts).symm
      apply iff_of_true rfl
      intro bad
      rcases bad with ⟨read', -⟩ | ⟨read', -⟩ <;> cases read.symm.trans read'
  | ok t =>
      obtain ⟨⟨length, rest⟩, size⟩ : ∃ sized, readSize t.buf = sized := ⟨_, rfl⟩
      rw [badEnd_iff read size]
      by_cases small : length ≤ stackBuffSize
      · rcases Int.lt_or_le t.reads.flatten.length (needRead length rest.length) with short | whole
        · have missing : 0 < needRead length rest.length := by omega
          rw [chunkRound_of_ok read size, if_neg (Nat.not_lt.mpr small), startRound,
            Segmented.withBuf_buf, if_pos missing] at halts
          have ended' : (t.withBuf rest).ended = true :=
            (Segmented.readUntil_ok read).2.1.ended.trans ended
          rcases dataRound_cases pac ended' small missing with ⟨-, run⟩ | ⟨_, _, le, -⟩
          · obtain rfl := (Sum.inr.inj (run.symm.trans halts)).symm
            have calls : dataErrorCalls length (t.withBuf rest).absorbed =
                if LF ∈ rest ++ t.reads.flatten ∨ length = 0 then [none] else [none, none, none] :=
              rfl
            have notWhole : ¬ needRead length rest.length ≤ t.reads.flatten.length := by omega
            dsimp only
            rw [calls]
            split
            · rename_i one
              apply iff_of_true rfl
              intro ends
              rcases ends with ⟨-, ⟨-, nonzero, absent⟩ | ⟨le, -⟩⟩
              · exact one.elim absent nonzero
              · exact notWhole le
            · rename_i three
              rcases not_or.mp three with ⟨absent, nonzero⟩
              exact iff_of_false (by decide)
                (not_not.mpr ⟨small, .inl ⟨short, nonzero, absent⟩⟩)
          · exact absurd le (by simpa using short)
        · obtain ⟨pac', net', run, ended', bytes⟩ := trail_of_round pac ended read size small whole
          rw [calls_trailRound_iff ended' (run.symm.trans halts), bytes]
          constructor
          · intro member ends
            rcases ends with ⟨-, ⟨short, -⟩ | ⟨-, absent⟩⟩
            · omega
            · exact absent member
          · intro notBad
            by_contra absent
            exact notBad ⟨small, .inr ⟨whole, absent⟩⟩
      · rw [chunkRound_of_ok read size, if_pos (Nat.lt_of_not_le small)] at halts
        obtain rfl := (Sum.inr.inj halts).symm
        exact iff_of_true rfl fun bad => small bad.1

theorem not_badEnd_of_goes (ended : net.ended = true) (goes : chunkRound (pac, net) = .inl next) :
    ¬ BadEnd net := by
  cases read : net.readUntil LF with
  | pending t => simp only [chunkRound, read] at goes; cases goes
  | error t => simp only [chunkRound, read] at goes; cases goes
  | ok t =>
      obtain ⟨⟨length, rest⟩, size⟩ : ∃ sized, readSize t.buf = sized := ⟨_, rfl⟩
      rw [badEnd_iff read size]
      intro ends
      rcases ends with ⟨small, ⟨short, -⟩ | ⟨whole, absent⟩⟩
      · have missing : 0 < needRead length rest.length := by omega
        have ended' : (t.withBuf rest).ended = true :=
          (Segmented.readUntil_ok read).2.1.ended.trans ended
        rw [chunkRound_of_ok read size, if_neg (Nat.not_lt.mpr small), startRound,
          Segmented.withBuf_buf, if_pos missing] at goes
        rcases dataRound_cases pac ended' small missing with ⟨-, run⟩ | ⟨_, _, le, -⟩
        · cases run.symm.trans goes
        · exact absurd le (by simpa using short)
      · obtain ⟨pac', net', run, -, bytes⟩ := trail_of_round pac ended read size small whole
        exact absent (bytes ▸ mem_of_trailRound_goes (run.symm.trans goes))

/-- **A chunked body whose input ends calls the handler once exactly when no
round of it comes to a bad end.** -/
theorem calls_readChunkedBody_iff (connected : pac.connected = true) (ended : net.ended = true) :
    (readChunkedBody pac net).calls.length = 1 ↔
      ∀ round, roundLoop.Visits (pac, net) round → ¬ BadEnd round.2 := by
  rw [readChunkedBody_eq connected]
  refine Loop.run_iff_visits (L := roundLoop) (Q := fun completion => completion.calls.length = 1)
    (P := fun round => ¬ BadEnd round.2) (I := fun round => round.2.ended = true) ?_ ?_ _ ended
  · intro s completion ended halts
    exact calls_chunkRound_iff ended halts
  · intro s t ended goes
    exact ⟨not_badEnd_of_goes ended goes, (roundGoes_of_chunkRound goes).ended.trans ended⟩

end Calls

end Ahttpd

import Ahttpd.Basis.Segmented
import Ahttpd.Utils

/-!
# The reading side of a connection

`Net` is what `readBuffer()` holds and what the socket will still deliver.
`readLine` is the pattern all line readers of the parser share: `asyncReadUntil`
for a line end and `getline` in its callback. Which line comes next depends on
the bytes alone, not on the reads they arrive in (`readLine_of_line`,
`SameInput.readLine`).
-/

namespace Ahttpd

open Basis

/-- One `read(2)` delivers at most this many bytes. -/
abbrev maxRead : Nat := 0x7ffff000

/-- The input of one connection. -/
abbrev Net := Segmented Byte maxRead

/-- A stream that arrives byte by byte. -/
def byteByByte (stream : Bytes) : Net where
  buf := []
  reads := stream.map fun c => [c]
  bounded := by simp [maxRead]
  ended := true

theorem byteByByte_remaining (stream : Bytes) : (byteByByte stream).remaining = stream := by
  rw [Segmented.remaining, byteByByte, List.nil_append, ← List.flatMap_def,
    List.flatMap_singleton']

/-- How a read of one line completes. -/
inductive LineResult
  | line (text : Bytes) (net : Net)
  | error (net : Net)
  | pending (net : Net)

/-- `asyncReadUntil("\n")` and `getline` in its callback. -/
def readLine (net : Net) : LineResult :=
  match net.readUntil LF with
  | .error net => .error net
  | .pending net => .pending net
  | .ok net =>
      let (text, rest) := getline net.buf
      .line text (net.withBuf rest)

/-- What a stage of the parser does with its handler. -/
inductive Stage (α : Type*)
  /-- It calls the handler once, with a package or with `nullptr`. -/
  | handle (result : Option α) (net : Net)
  /-- It is still waiting for input. -/
  | waiting (net : Net)
  /-- An exception leaves it. -/
  | threw (error : TokenError) (net : Net)

/-! ## What is read, whatever the segmentation -/

/-- The same bytes, in whatever reads. -/
structure SameInput (s t : Net) : Prop where
  remaining : s.remaining = t.remaining
  ended : s.ended = t.ended

theorem SameInput.refl (s : Net) : SameInput s s := ⟨rfl, rfl⟩

theorem SameInput.symm {s t : Net} (same : SameInput s t) : SameInput t s :=
  ⟨same.remaining.symm, same.ended.symm⟩

theorem SameInput.absorbed {s t : Net} (same : SameInput s t) :
    SameInput s.absorbed t.absorbed :=
  ⟨by rw [Segmented.absorbed_remaining, Segmented.absorbed_remaining, same.remaining],
    same.ended⟩

/-- Taking lines off the input: what is left, and that the buffer holds at most
what one read brought. -/
structure Takes (s : Net) (rest : Bytes) (t : Net) : Prop where
  remaining : t.remaining = rest
  ended : t.ended = s.ended
  buffered : t.buf.length ≤ max s.buf.length maxRead

theorem Takes.trans {s t u : Net} {rest rest' : Bytes} (first : Takes s rest t)
    (second : Takes t rest' u) : Takes s rest' u where
  remaining := second.remaining
  ended := second.ended.trans first.ended
  buffered := second.buffered.trans (max_le first.buffered (le_max_right _ _))

/-- A buffer that one read can have brought stays one. -/
theorem Takes.settled {s t : Net} {rest : Bytes} (takes : Takes s rest t)
    (settled : s.buf.length ≤ maxRead) : t.buf.length ≤ maxRead :=
  takes.buffered.trans (max_le settled (Nat.le_refl _))

section ReadLine

variable {s t : Net} {line rest : Bytes}

/-- A line end that is in the buffer cuts the rest of the input at the same
place. -/
theorem Takes.of_buffers {u : Net} (same : Segmented.Buffers s u)
    (isLine : s.remaining = line ++ LF :: rest) {buf : Bytes} (isBuf : u.buf = line ++ LF :: buf)
    (last : u.buf = s.buf ∨ ∃ front last, u.buf = front ++ last ∧ LF ∉ front ∧
      last.length ≤ maxRead) : Takes s rest (u.withBuf buf) where
  remaining := by
    have bytes := same.remaining
    rw [isLine, Segmented.remaining, isBuf, List.append_assoc] at bytes
    exact List.tail_eq_of_cons_eq (List.append_cancel_left bytes)
  ended := same.ended
  buffered := by
    have total := congrArg List.length isBuf
    rw [List.length_append, List.length_cons] at total
    rcases last with unchanged | ⟨front, last, split, lacks, short⟩
    · rw [unchanged] at total
      rw [Segmented.withBuf_buf]
      omega
    · -- the line end came with the last read, so what follows it did as well
      have later : front.length ≤ line.length := by
        by_contra longer
        have first : front <+: line ++ LF :: buf := ⟨last, by rw [← split, isBuf]⟩
        have whole : line ++ [LF] <+: line ++ LF :: buf := ⟨buf, by simp⟩
        have inFront := List.prefix_of_prefix_length_le whole first (by simp; omega)
        exact lacks (inFront.subset (by simp))
      rw [split, List.length_append] at total
      rw [Segmented.withBuf_buf]
      omega

theorem readUntil_of_line (absent : LF ∉ line) (isLine : s.remaining = line ++ LF :: rest) :
    ∃ u buf, s.readUntil LF = .ok u ∧ u.buf = line ++ LF :: buf ∧
      Takes s rest (u.withBuf buf) := by
  have delimited : LF ∈ s.remaining := by simp [isLine]
  obtain ⟨u, read⟩ := Segmented.readUntil_of_mem delimited
  rcases Segmented.readUntil_ok read with ⟨member, same, last⟩
  obtain ⟨line', buf, isBuf, absent'⟩ := exists_line member
  have bytes := same.remaining
  rw [isLine, Segmented.remaining, isBuf, List.append_assoc, List.cons_append] at bytes
  have sameLine : line' = line := by
    have first := congrArg (List.takeWhile (· ≠ LF)) bytes
    rw [takeWhile_append_stop (by decide), takeWhile_append_stop (by decide),
      takeWhile_ne_eq_self absent', takeWhile_ne_eq_self absent] at first
    exact first
  subst sameLine
  exact ⟨u, buf, read, isBuf, .of_buffers same isLine isBuf last⟩

/-- **The next line does not depend on the segmentation.** -/
theorem readLine_of_line (absent : LF ∉ line) (isLine : s.remaining = line ++ LF :: rest) :
    ∃ t, readLine s = .line line t ∧ Takes s rest t := by
  obtain ⟨u, buf, read, isBuf, takes⟩ := readUntil_of_line absent isLine
  refine ⟨u.withBuf buf, ?_, takes⟩
  simp only [readLine, read, isBuf, getline_append absent]

theorem readUntil_of_no_line (absent : LF ∉ s.remaining) :
    s.readUntil LF = if s.ended then .error s.absorbed else .pending s.absorbed :=
  Segmented.readUntil_of_not_mem absent

theorem readLine_of_no_line (absent : LF ∉ s.remaining) :
    readLine s = if s.ended then .error s.absorbed else .pending s.absorbed := by
  rw [readLine, readUntil_of_no_line absent]
  cases s.ended <;> rfl

/-- What a line read gave says what the input was. -/
theorem of_readLine {text : Bytes} (read : readLine s = .line text t) :
    s.remaining = text ++ LF :: t.remaining ∧ LF ∉ text ∧ t.ended = s.ended := by
  by_cases member : LF ∈ s.remaining
  · obtain ⟨line, rest, isLine, absent⟩ := exists_line member
    obtain ⟨u, read', takes⟩ := readLine_of_line absent isLine
    rcases LineResult.line.inj (read.symm.trans read') with ⟨rfl, rfl⟩
    exact ⟨by rw [takes.remaining, isLine], absent, takes.ended⟩
  · rw [readLine_of_no_line member] at read
    split at read <;> cases read

theorem length_of_readLine {text : Bytes} (read : readLine s = .line text t) :
    t.remaining.length < s.remaining.length := by
  rw [(of_readLine read).1, List.length_append, List.length_cons]
  omega

/-- Two line reads that take the same line or fail in the same way. -/
inductive LineResult.Same : LineResult → LineResult → Prop
  | line {text : Bytes} {u v : Net} : SameInput u v → Same (.line text u) (.line text v)
  | error {u v : Net} : SameInput u v → Same (.error u) (.error v)
  | pending {u v : Net} : SameInput u v → Same (.pending u) (.pending v)

theorem SameInput.readLine (same : SameInput s t) : LineResult.Same (readLine s) (readLine t) := by
  by_cases member : LF ∈ s.remaining
  · obtain ⟨line, rest, isLine, absent⟩ := exists_line member
    obtain ⟨u, read, takes⟩ := readLine_of_line absent isLine
    obtain ⟨v, read', takes'⟩ := readLine_of_line absent (same.remaining.symm.trans isLine)
    rw [read, read']
    exact .line ⟨takes.remaining.trans takes'.remaining.symm,
      takes.ended.trans (same.ended.trans takes'.ended.symm)⟩
  · rw [readLine_of_no_line member, readLine_of_no_line (same.remaining ▸ member), same.ended]
    split
    · exact .error same.absorbed
    · exact .pending same.absorbed

end ReadLine

end Ahttpd

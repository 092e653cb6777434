import Mathlib.Data.List.Basic

/-!
# Segmented input

An input that arrives in reads of its own choosing: what is buffered, and the
reads still to come, each at most `cap` items long. `readUntil`, `readAtLeast`
and `readExactly` are the three ways to ask for more of it; each takes whole
reads, except that `readExactly` takes no more than it was asked for and leaves
the rest of a read for later. A request that the reads cannot satisfy fails
when the input has ended and stays pending when it has not.

`remaining` forgets the cuts. A successful request keeps it (`Buffers`), and
whether a request succeeds is a function of it.
-/

namespace Basis

/-- Buffered items, the reads still to come, and whether the input ends after
them. -/
structure Segmented (α : Type*) (cap : Nat) where
  buf : List α
  reads : List (List α)
  bounded : ∀ read ∈ reads, read.length ≤ cap
  ended : Bool

/-- How a request for more input completes. -/
inductive ReadResult (σ : Type*)
  | ok (src : σ)
  /-- The input has ended first. -/
  | error (src : σ)
  /-- The input has not ended and the request is still waiting. -/
  | pending (src : σ)

namespace Segmented

variable {α : Type*} {cap : Nat}

/-- Everything that has not been consumed, buffered or not. -/
def remaining (s : Segmented α cap) : List α := s.buf ++ s.reads.flatten

/-- All of the input is in the buffer. -/
def absorbed (s : Segmented α cap) : Segmented α cap :=
  ⟨s.remaining, [], fun _ member => absurd member List.not_mem_nil, s.ended⟩

/-- Give up after the last read. -/
def exhausted (s : Segmented α cap) : ReadResult (Segmented α cap) :=
  if s.ended then .error s.absorbed else .pending s.absorbed

/-- The buffer and the rest of the reads once `enough` holds of the buffer. -/
def pull (enough : List α → Bool) : List α → List (List α) → Option (List α × List (List α))
  | buf, [] => if enough buf then some (buf, []) else none
  | buf, read :: reads =>
      if enough buf then some (buf, read :: reads) else pull enough (buf ++ read) reads

/-- Drop `n` items from the front of the reads. -/
def dropReads : Nat → List (List α) → List (List α)
  | _, [] => []
  | n, read :: reads =>
      if read.length ≤ n then dropReads (n - read.length) reads else read.drop n :: reads

theorem mem_of_pull {enough : List α → Bool} {buf buf' : List α} {reads reads' : List (List α)}
    (pulled : pull enough buf reads = some (buf', reads')) {read : List α}
    (member : read ∈ reads') : read ∈ reads := by
  induction reads generalizing buf with
  | nil =>
      simp only [pull, Option.ite_none_right_eq_some, Option.some.injEq, Prod.mk.injEq] at pulled
      rw [← pulled.2.2] at member
      exact member
  | cons first reads ih =>
      unfold pull at pulled
      split at pulled
      · rw [(Prod.mk.inj (Option.some.inj pulled)).2]
        exact member
      · exact List.mem_cons_of_mem _ (ih pulled)

theorem length_of_mem_dropReads {n : Nat} {reads : List (List α)}
    (bounded : ∀ read ∈ reads, read.length ≤ cap) {read : List α}
    (member : read ∈ dropReads n reads) : read.length ≤ cap := by
  induction reads generalizing n with
  | nil => exact absurd member List.not_mem_nil
  | cons first reads ih =>
      unfold dropReads at member
      split at member
      · exact ih (fun read later => bounded read (List.mem_cons_of_mem _ later)) member
      · rcases List.mem_cons.mp member with rfl | later
        · have whole := bounded first List.mem_cons_self
          rw [List.length_drop]
          omega
        · exact bounded read (List.mem_cons_of_mem _ later)

/-- Read until `enough` holds of the buffer. -/
def readWhile (enough : List α → Bool) (s : Segmented α cap) : ReadResult (Segmented α cap) :=
  match pulled : pull enough s.buf s.reads with
  | some (buf, reads) =>
      .ok ⟨buf, reads, fun read member => s.bounded read (mem_of_pull pulled member), s.ended⟩
  | none => s.exhausted

/-- Read until the delimiter is in the buffer. -/
def readUntil [BEq α] (delim : α) (s : Segmented α cap) : ReadResult (Segmented α cap) :=
  s.readWhile (·.contains delim)

/-- Read `n` items or more. -/
def readAtLeast (n : Nat) (s : Segmented α cap) : ReadResult (Segmented α cap) :=
  s.readWhile fun buf => s.buf.length + n ≤ buf.length

/-- Read `n` items and no more. -/
def readExactly (n : Nat) (s : Segmented α cap) : ReadResult (Segmented α cap) :=
  if n ≤ s.reads.flatten.length then
    .ok ⟨s.buf ++ s.reads.flatten.take n, dropReads n s.reads,
      fun _ member => length_of_mem_dropReads s.bounded member, s.ended⟩
  else s.exhausted

/-- Replace the buffer by what a reader left in it. -/
def withBuf (s : Segmented α cap) (buf : List α) : Segmented α cap := { s with buf }

@[simp] theorem withBuf_buf (s : Segmented α cap) (buf : List α) : (s.withBuf buf).buf = buf := rfl

@[simp] theorem withBuf_reads (s : Segmented α cap) (buf : List α) :
    (s.withBuf buf).reads = s.reads := rfl

@[simp] theorem withBuf_ended (s : Segmented α cap) (buf : List α) :
    (s.withBuf buf).ended = s.ended := rfl

@[simp] theorem withBuf_remaining (s : Segmented α cap) (buf : List α) :
    (s.withBuf buf).remaining = buf ++ s.reads.flatten := rfl

@[simp] theorem absorbed_buf (s : Segmented α cap) : s.absorbed.buf = s.remaining := rfl

@[simp] theorem absorbed_reads (s : Segmented α cap) : s.absorbed.reads = [] := rfl

@[simp] theorem absorbed_remaining (s : Segmented α cap) : s.absorbed.remaining = s.remaining := by
  simp [remaining]

@[simp] theorem absorbed_absorbed (s : Segmented α cap) : s.absorbed.absorbed = s.absorbed := by
  simp only [absorbed, remaining, List.flatten_nil, List.append_nil]

theorem flatten_dropReads (n : Nat) (reads : List (List α)) :
    (dropReads n reads).flatten = reads.flatten.drop n := by
  induction reads generalizing n with
  | nil => simp [dropReads]
  | cons read reads ih =>
      unfold dropReads
      split
      · rename_i short
        rw [ih, List.flatten_cons, List.drop_append, List.drop_eq_nil_of_le short,
          List.nil_append]
      · rename_i long
        rw [List.flatten_cons, List.flatten_cons, List.drop_append_of_le_length (by omega)]

theorem pull_some {enough : List α → Bool} {buf buf' : List α} {reads reads' : List (List α)}
    (pulled : pull enough buf reads = some (buf', reads')) :
    enough buf' = true ∧ buf' ++ reads'.flatten = buf ++ reads.flatten := by
  induction reads generalizing buf with
  | nil =>
      simp only [pull, Option.ite_none_right_eq_some, Option.some.injEq, Prod.mk.injEq] at pulled
      obtain ⟨holds, rfl, rfl⟩ := pulled
      exact ⟨holds, rfl⟩
  | cons read reads ih =>
      unfold pull at pulled
      split at pulled
      · rename_i holds
        rcases Prod.mk.inj (Option.some.inj pulled) with ⟨rfl, rfl⟩
        exact ⟨holds, rfl⟩
      · obtain ⟨holds, same⟩ := ih pulled
        exact ⟨holds, by rw [same, List.flatten_cons, List.append_assoc]⟩

theorem pull_of_enough {enough : List α → Bool} {buf : List α} {reads : List (List α)}
    (all : enough (buf ++ reads.flatten) = true) :
    ∃ buf' reads', pull enough buf reads = some (buf', reads') := by
  induction reads generalizing buf with
  | nil => exact ⟨buf, [], by simpa [pull] using all⟩
  | cons read reads ih =>
      unfold pull
      split
      · exact ⟨_, _, rfl⟩
      · exact ih (by rwa [List.flatten_cons, ← List.append_assoc] at all)

/-- The buffer grows by whole reads and only while it is not enough. -/
theorem pull_last {enough : List α → Bool} {buf buf' : List α} {reads reads' : List (List α)}
    (bounded : ∀ read ∈ reads, read.length ≤ cap)
    (pulled : pull enough buf reads = some (buf', reads')) :
    buf' = buf ∨ ∃ front last, buf' = front ++ last ∧ enough front = false ∧
      last.length ≤ cap := by
  induction reads generalizing buf with
  | nil =>
      simp only [pull, Option.ite_none_right_eq_some, Option.some.injEq, Prod.mk.injEq] at pulled
      exact .inl pulled.2.1.symm
  | cons read reads ih =>
      unfold pull at pulled
      split at pulled
      · exact .inl (Prod.mk.inj (Option.some.inj pulled)).1.symm
      · rename_i lacks
        rcases ih (fun read later => bounded read (List.mem_cons_of_mem _ later)) pulled with
          rfl | longer
        · exact .inr ⟨buf, read, rfl, by simpa using lacks, bounded read List.mem_cons_self⟩
        · exact .inr longer

/-! ## What a request answers -/

/-- `t` is `s` after some more of the input has been buffered. -/
structure Buffers (s t : Segmented α cap) : Prop where
  remaining : t.remaining = s.remaining
  ended : t.ended = s.ended

theorem readWhile_ok {enough : List α → Bool} {s t : Segmented α cap}
    (read : s.readWhile enough = .ok t) :
    enough t.buf = true ∧ Buffers s t ∧
      (t.buf = s.buf ∨ ∃ front last, t.buf = front ++ last ∧ enough front = false ∧
        last.length ≤ cap) := by
  unfold readWhile at read
  split at read
  · rename_i buf reads pulled
    obtain rfl := ReadResult.ok.inj read
    rcases pull_some pulled with ⟨holds, same⟩
    exact ⟨holds, ⟨same, rfl⟩, pull_last s.bounded pulled⟩
  · unfold exhausted at read
    split at read <;> cases read

theorem exhausted_of_ended {s : Segmented α cap} (ended : s.ended = true) :
    s.exhausted = .error s.absorbed :=
  if_pos ended

theorem exhausted_error {s t : Segmented α cap} (read : s.exhausted = .error t) :
    t = s.absorbed ∧ s.ended = true := by
  unfold exhausted at read
  split at read
  · rename_i ended
    exact ⟨(ReadResult.error.inj read).symm, ended⟩
  · cases read

theorem exhausted_pending {s t : Segmented α cap} (read : s.exhausted = .pending t) :
    t = s.absorbed ∧ s.ended = false := by
  unfold exhausted at read
  split at read
  · cases read
  · rename_i open'
    exact ⟨(ReadResult.pending.inj read).symm, Bool.not_eq_true _ ▸ open'⟩

theorem readWhile_of_enough {enough : List α → Bool} {s : Segmented α cap}
    (all : enough s.remaining = true) : ∃ t, s.readWhile enough = .ok t := by
  obtain ⟨buf, reads, pulled⟩ := pull_of_enough all
  unfold readWhile
  split
  · exact ⟨_, rfl⟩
  · rename_i none
    cases none.symm.trans pulled

/-- Input that is buffered already is read without moving. -/
theorem readWhile_of_buffered {enough : List α → Bool} {s : Segmented α cap}
    (holds : enough s.buf = true) : s.readWhile enough = .ok s := by
  have pulled : pull enough s.buf s.reads = some (s.buf, s.reads) := by
    cases s.reads with
    | nil => exact if_pos holds
    | cons => exact if_pos holds
  unfold readWhile
  split
  · rename_i buf reads pulled'
    rcases Prod.mk.inj (Option.some.inj (pulled.symm.trans pulled')) with ⟨rfl, rfl⟩
    rfl
  · rename_i none
    cases none.symm.trans pulled

section Until

variable [BEq α] [LawfulBEq α] {delim : α} {s t : Segmented α cap}

theorem readUntil_ok (read : s.readUntil delim = .ok t) :
    delim ∈ t.buf ∧ Buffers s t ∧
      (t.buf = s.buf ∨ ∃ front last, t.buf = front ++ last ∧ delim ∉ front ∧
        last.length ≤ cap) := by
  rcases readWhile_ok read with ⟨holds, same, last⟩
  refine ⟨List.contains_iff_mem.mp holds, same, last.imp_right ?_⟩
  intro came
  rcases came with ⟨front, last, eq, lacks, short⟩
  refine ⟨front, last, eq, fun member => ?_, short⟩
  rw [List.contains_iff_mem.mpr member] at lacks
  cases lacks

theorem readUntil_of_mem (member : delim ∈ s.remaining) :
    ∃ t, s.readUntil delim = .ok t :=
  readWhile_of_enough (List.contains_iff_mem.mpr member)

theorem readUntil_of_not_mem (absent : delim ∉ s.remaining) :
    s.readUntil delim = s.exhausted := by
  unfold readUntil readWhile
  split
  · rename_i buf reads pulled
    rcases pull_some pulled with ⟨holds, same⟩
    have member := List.mem_append_left reads.flatten (List.contains_iff_mem.mp holds)
    rw [same] at member
    exact absurd member absent
  · rfl

theorem readUntil_error (read : s.readUntil delim = .error t) :
    t = s.absorbed ∧ s.ended = true ∧ delim ∉ s.remaining := by
  by_cases member : delim ∈ s.remaining
  · obtain ⟨u, read'⟩ := readUntil_of_mem member
    cases read'.symm.trans read
  · rcases exhausted_error ((readUntil_of_not_mem member).symm.trans read) with ⟨eq, ended⟩
    exact ⟨eq, ended, member⟩

theorem pull_singletons {buf line rest : List α} (absent : delim ∉ buf) (absent' : delim ∉ line) :
    pull (·.contains delim) buf ((line ++ delim :: rest).map fun c => [c]) =
      some (buf ++ line ++ [delim], rest.map fun c => [c]) := by
  have lacks (buf : List α) (absent : delim ∉ buf) : ¬ buf.contains delim = true :=
    fun found => absent (List.contains_iff_mem.mp found)
  induction line generalizing buf with
  | nil =>
      have found : (buf ++ [delim]).contains delim = true :=
        List.contains_iff_mem.mpr (List.mem_append_right _ (List.mem_singleton_self delim))
      rw [List.nil_append, List.map_cons, pull, if_neg (lacks buf absent), List.append_nil]
      cases rest with
      | nil => exact if_pos found
      | cons c rest => exact if_pos found
  | cons c line ih =>
      rcases not_or.mp (List.mem_cons.not.mp absent') with ⟨differs, absent'⟩
      have absent'' : delim ∉ buf ++ [c] := by
        rw [List.mem_append, List.mem_singleton]
        exact not_or.mpr ⟨absent, differs⟩
      rw [List.cons_append, List.map_cons, pull, if_neg (lacks buf absent), ih absent'' absent',
        List.append_assoc buf [c], List.singleton_append]

/-- Items that arrive one by one are read up to the delimiter and no further. -/
theorem readUntil_singletons {line rest : List α} (empty : s.buf = [])
    (reads : s.reads = (line ++ delim :: rest).map fun c => [c]) (absent : delim ∉ line) :
    ∃ t, s.readUntil delim = .ok t ∧ t.buf = line ++ [delim] ∧
      t.reads = rest.map fun c => [c] := by
  have pulled : pull (·.contains delim) [] s.reads =
      some ([] ++ line ++ [delim], rest.map fun c => [c]) := by
    rw [reads]
    exact pull_singletons List.not_mem_nil absent
  rw [List.nil_append] at pulled
  unfold readUntil readWhile
  split
  · rename_i buf reads' pulled'
    rw [empty] at pulled'
    rcases Prod.mk.inj (Option.some.inj (pulled.symm.trans pulled')) with ⟨isBuf, isReads⟩
    exact ⟨_, rfl, isBuf.symm, isReads.symm⟩
  · rename_i none
    rw [empty] at none
    cases pulled.symm.trans none

theorem readUntil_pending (read : s.readUntil delim = .pending t) : s.ended = false := by
  by_cases member : delim ∈ s.remaining
  · obtain ⟨u, read'⟩ := readUntil_of_mem member
    cases read'.symm.trans read
  · exact (exhausted_pending ((readUntil_of_not_mem member).symm.trans read)).2

theorem readUntil_absorbed (member : delim ∈ s.remaining) :
    s.absorbed.readUntil delim = .ok s.absorbed :=
  readWhile_of_buffered (List.contains_iff_mem.mpr member)

theorem readUntil_absorbed_of_not_mem (absent : delim ∉ s.remaining) (ended : s.ended = true) :
    s.absorbed.readUntil delim = .error s.absorbed := by
  rw [readUntil_of_not_mem (by rwa [absorbed_remaining]),
    exhausted_of_ended (s := s.absorbed) ended, absorbed_absorbed]

end Until

theorem readAtLeast_ok {n : Nat} {s t : Segmented α cap} (read : s.readAtLeast n = .ok t) :
    s.buf.length + n ≤ t.buf.length ∧ Buffers s t ∧
      (t.buf = s.buf ∨ t.buf.length < s.buf.length + n + cap) := by
  rcases readWhile_ok read with ⟨holds, same, last⟩
  refine ⟨of_decide_eq_true holds, same, last.imp_right ?_⟩
  intro came
  rcases came with ⟨front, last, eq, lacks, short⟩
  have less := of_decide_eq_false lacks
  rw [eq, List.length_append]
  omega

theorem readAtLeast_zero (s : Segmented α cap) : s.readAtLeast 0 = .ok s :=
  readWhile_of_buffered (decide_eq_true (Nat.le_refl _))

theorem readAtLeast_of_le {n : Nat} {s : Segmented α cap} (le : n ≤ s.reads.flatten.length) :
    ∃ t, s.readAtLeast n = .ok t := by
  refine readWhile_of_enough (decide_eq_true ?_)
  rw [remaining, List.length_append]
  omega

theorem readExactly_of_le {n : Nat} {s : Segmented α cap} (le : n ≤ s.reads.flatten.length) :
    ∃ t, s.readExactly n = .ok t ∧ t.buf = s.buf ++ s.reads.flatten.take n ∧
      t.reads.flatten = s.reads.flatten.drop n ∧ Buffers s t := by
  refine ⟨_, if_pos le, rfl, flatten_dropReads _ _, ?_, rfl⟩
  rw [remaining, flatten_dropReads, List.append_assoc, List.take_append_drop]
  rfl

theorem readExactly_of_lt {n : Nat} {s : Segmented α cap} (lt : s.reads.flatten.length < n) :
    s.readExactly n = s.exhausted :=
  if_neg (Nat.not_le.mpr lt)

theorem readExactly_ok {n : Nat} {s t : Segmented α cap} (read : s.readExactly n = .ok t) :
    n ≤ s.reads.flatten.length ∧ t.buf = s.buf ++ s.reads.flatten.take n ∧
      t.reads.flatten = s.reads.flatten.drop n ∧ Buffers s t := by
  rcases Nat.lt_or_ge s.reads.flatten.length n with lt | le
  · rw [readExactly_of_lt lt, exhausted] at read
    split at read <;> cases read
  · obtain ⟨u, reads, buf, rest, same⟩ := readExactly_of_le le
    obtain rfl := ReadResult.ok.inj (reads.symm.trans read)
    exact ⟨le, buf, rest, same⟩

theorem readExactly_error {n : Nat} {s t : Segmented α cap} (read : s.readExactly n = .error t) :
    t = s.absorbed ∧ s.ended = true ∧ s.reads.flatten.length < n := by
  rcases Nat.lt_or_ge s.reads.flatten.length n with lt | le
  · rcases exhausted_error ((readExactly_of_lt lt).symm.trans read) with ⟨eq, ended⟩
    exact ⟨eq, ended, lt⟩
  · obtain ⟨u, read', -⟩ := readExactly_of_le le
    cases read'.symm.trans read

end Segmented

end Basis

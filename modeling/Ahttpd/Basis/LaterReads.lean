import Ahttpd.Basis.Segmented

/-!
# Reads that come later

`Extends later ends s t` says that `t` is `s` with further reads behind its own,
after which it ends or stays open. A request that `s` satisfies takes the same
items from `t` and leaves the further reads where they are
(`Extends.readWhile`, `Extends.readExactly`), so what has been read does not
depend on them. Reads that bring nothing are left out: a
request for a number of items drops them once it is satisfied.
-/

namespace Basis

namespace Segmented

variable {α : Type*} {cap : Nat} {later : List (List α)} {ends : Bool} {s s' t : Segmented α cap}

/-- `t` is `s` with further reads behind its own, and then ends or stays open. -/
structure Extends (later : List (List α)) (ends : Bool) (s t : Segmented α cap) : Prop where
  buf : t.buf = s.buf
  reads : t.reads = s.reads ++ later
  nonempty : ∀ read ∈ later, read ≠ []
  ended : t.ended = ends

theorem Extends.remaining (longer : Extends later ends s t) :
    t.remaining = s.remaining ++ later.flatten := by
  rw [Segmented.remaining, longer.buf, longer.reads, List.flatten_append, ← List.append_assoc]
  rfl

/-- The first of the later reads may count as read so far. -/
theorem Extends.split {block : List (List α)} (longer : Extends (block ++ later) ends s t) :
    ∃ next : Segmented α cap, next.buf = s.buf ∧
      next.remaining = s.remaining ++ block.flatten ∧ Extends later ends next t := by
  have bounded : ∀ read ∈ s.reads ++ block, read.length ≤ cap := by
    intro read member
    apply t.bounded
    rw [longer.reads, ← List.append_assoc]
    exact List.mem_append_left _ member
  refine ⟨⟨s.buf, s.reads ++ block, bounded, ends⟩, rfl, ?_, longer.buf, ?_, ?_, longer.ended⟩
  · rw [Segmented.remaining, Segmented.remaining, List.flatten_append, ← List.append_assoc]
  · rw [longer.reads, List.append_assoc]
  · exact fun read member => longer.nonempty read (List.mem_append_right _ member)

theorem Extends.withBuf (longer : Extends later ends s t) (buf : List α) :
    Extends later ends (s.withBuf buf) (t.withBuf buf) :=
  ⟨rfl, longer.reads, longer.nonempty, longer.ended⟩

theorem pull_append {enough : List α → Bool} {buf buf' : List α} {reads reads' : List (List α)}
    (pulled : pull enough buf reads = some (buf', reads')) :
    pull enough buf (reads ++ later) = some (buf', reads' ++ later) := by
  induction reads generalizing buf with
  | nil =>
      simp only [pull, Option.ite_none_right_eq_some, Option.some.injEq, Prod.mk.injEq] at pulled
      obtain ⟨holds, rfl, rfl⟩ := pulled
      rw [List.nil_append]
      cases later with
      | nil => exact if_pos holds
      | cons => exact if_pos holds
  | cons read reads ih =>
      unfold pull at pulled
      rw [List.cons_append, pull]
      split at pulled
      · rename_i holds
        rcases Prod.mk.inj (Option.some.inj pulled) with ⟨rfl, rfl⟩
        rw [if_pos holds, List.cons_append]
      · rename_i lacks
        rw [if_neg lacks]
        exact ih pulled

/-- Items are dropped from the reads that have them. -/
theorem dropReads_append {n : Nat} {reads : List (List α)} (le : n ≤ reads.flatten.length)
    (nonempty : ∀ read ∈ later, read ≠ []) :
    dropReads n (reads ++ later) = dropReads n reads ++ later := by
  induction reads generalizing n with
  | nil =>
      obtain rfl : n = 0 := Nat.le_zero.mp le
      cases later with
      | nil => rfl
      | cons read later =>
          have holds : ¬read.length ≤ 0 := fun none =>
            nonempty read List.mem_cons_self (List.length_eq_zero_iff.mp (Nat.le_zero.mp none))
          have kept : dropReads 0 (read :: later) = read :: later := by
            rw [dropReads, if_neg holds, List.drop_zero]
          exact kept
  | cons read reads ih =>
      rw [List.flatten_cons, List.length_append] at le
      rw [List.cons_append, dropReads, dropReads]
      split
      · exact ih (by omega)
      · rfl

theorem Extends.readWhile {enough : List α → Bool} (longer : Extends later ends s t)
    (read : s.readWhile enough = .ok s') :
    ∃ t', t.readWhile enough = .ok t' ∧ Extends later ends s' t' := by
  unfold Segmented.readWhile at read ⊢
  split at read
  · rename_i buf reads pulled
    obtain rfl := ReadResult.ok.inj read
    have pulled' : pull enough t.buf t.reads = some (buf, reads ++ later) := by
      rw [longer.buf, longer.reads]
      exact pull_append pulled
    split
    · rename_i buf' reads' same
      rcases Prod.mk.inj (Option.some.inj (pulled'.symm.trans same)) with ⟨rfl, rfl⟩
      exact ⟨_, rfl, rfl, rfl, longer.nonempty, longer.ended⟩
    · rename_i none
      cases pulled'.symm.trans none
  · unfold exhausted at read
    split at read <;> cases read

theorem Extends.readUntil [BEq α] {delim : α} (longer : Extends later ends s t)
    (read : s.readUntil delim = .ok s') :
    ∃ t', t.readUntil delim = .ok t' ∧ Extends later ends s' t' :=
  longer.readWhile read

theorem Extends.readExactly {n : Nat} (longer : Extends later ends s t)
    (read : s.readExactly n = .ok s') :
    ∃ t', t.readExactly n = .ok t' ∧ Extends later ends s' t' := by
  rcases readExactly_ok read with ⟨le, -, -, -⟩
  have all : n ≤ t.reads.flatten.length := by
    rw [longer.reads, List.flatten_append, List.length_append]
    omega
  have isRest := ReadResult.ok.inj ((if_pos le).symm.trans read)
  refine ⟨_, if_pos all, ?_, ?_, longer.nonempty, longer.ended⟩
  · rw [← isRest]
    dsimp only
    rw [longer.buf, longer.reads, List.flatten_append, List.take_append_of_le_length le]
  · rw [← isRest]
    dsimp only
    rw [longer.reads, dropReads_append le longer.nonempty]

end Segmented

end Basis

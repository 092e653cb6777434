import Mathlib.Data.List.GetD

/-!
# Checked accesses

What a program does with an array and its size may fail without a sign: an
index or the start of a part beyond the end, an unsigned difference below
zero, a counter past its largest value. Here each of these is an operation
that says so. An operation whose guard holds is a value (`index_of_le` and its
like), and what is built from such operations is safe when every guard holds.
-/

namespace Basis

/-- What goes wrong in silence. -/
inductive Fault
  | index
  | start
  | wrap
  | overflow
  deriving DecidableEq

abbrev Checked := Except Fault

namespace Checked

variable {α β : Type} {a : α} {s : List α} {m n limit : Nat} {x : Checked α}

/-- No access of the computation goes wrong. -/
def Safe (x : Checked α) : Prop := ∃ a, x = .ok a

/-- `s[i]`, where the position behind the last one may be read. -/
def index (zero : α) (s : List α) (i : Nat) : Checked α :=
  if i ≤ s.length then .ok (s.getD i zero) else .error .index

/-- `s.substr(start, count)`. -/
def substr (s : List α) (start count : Nat) : Checked (List α) :=
  if start ≤ s.length then .ok ((s.drop start).take count) else .error .start

/-- `m - n` of unsigned numbers. -/
def sub (m n : Nat) : Checked Nat := if n ≤ m then .ok (m - n) else .error .wrap

/-- `n++` of a type whose largest value is the limit. -/
def increment (limit n : Nat) : Checked Nat := if n < limit then .ok (n + 1) else .error .overflow

/-- `p && q`, where the second is looked at only when the first holds. -/
def andThen (p : Bool) (q : Checked Bool) : Checked Bool := if p then q else .ok false

@[simp] theorem pure_eq_ok (a : α) : (pure a : Checked α) = .ok a := rfl

@[simp] theorem ok_bind (a : α) (f : α → Checked β) : (Except.ok a : Checked α) >>= f = f a := rfl

@[simp] theorem error_bind (fault : Fault) (f : α → Checked β) :
    (Except.error fault : Checked α) >>= f = .error fault := rfl

@[simp] theorem andThen_true (q : Checked Bool) : andThen true q = q := rfl

@[simp] theorem andThen_false (q : Checked Bool) : andThen false q = .ok false := rfl

theorem index_of_le {zero : α} (le : n ≤ s.length) : index zero s n = .ok (s.getD n zero) :=
  if_pos le

theorem substr_of_le (le : m ≤ s.length) (n : Nat) : substr s m n = .ok ((s.drop m).take n) :=
  if_pos le

theorem sub_of_le (le : n ≤ m) : sub m n = .ok (m - n) := if_pos le

theorem sub_of_lt (lt : m < n) : sub m n = .error .wrap := if_neg (Nat.not_le_of_lt lt)

theorem increment_of_lt (lt : n < limit) : increment limit n = .ok (n + 1) := if_pos lt

theorem increment_of_le (le : limit ≤ n) : increment limit n = .error .overflow :=
  if_neg (Nat.not_lt_of_le le)

theorem not_safe_error (fault : Fault) : ¬ Safe (.error fault : Checked α) := by
  rintro ⟨a, impossible⟩
  cases impossible

theorem Safe.of_eq (same : x = .ok a) : Safe x := ⟨a, same⟩

end Checked

end Basis

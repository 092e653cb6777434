import Mathlib.Data.List.Induction
import Mathlib.Tactic.Ring

/-!
# Bits in order

A number below `2 ^ w` as its `w` bits, the highest first, and a list of bits
cut into digits of `w` bits each. The bits of a number are those of a quotient
and then those of the remainder (`bitsOf_add`), which is all it takes to cut the
bits of one kind of digit into digits of another.
-/

namespace Basis

/-- The bits of a number, the highest first. -/
def bitsOf (w n : Nat) : List Bool := (List.range w).reverse.map n.testBit

/-- The number with these bits. -/
def ofBits (bits : List Bool) : Nat := bits.foldl (fun n bit => 2 * n + bit.toNat) 0

/-- The first `k` digits of `w` bits. Zero bits fill up the last one. -/
def digitsOf (w : Nat) : (k : Nat) → List Bool → List Nat
  | 0, _ => []
  | k + 1, bits => ofBits ((bits.take w).rightpad w false) :: digitsOf w k (bits.drop w)

variable {w k n : Nat} {s t : List Bool}

@[simp] theorem length_bitsOf (w n : Nat) : (bitsOf w n).length = w := by
  unfold bitsOf
  rw [List.length_map, List.length_reverse, List.length_range]

@[simp] theorem length_digitsOf (w k : Nat) (s : List Bool) : (digitsOf w k s).length = k := by
  induction k generalizing s with
  | zero => rfl
  | succ k ih => rw [digitsOf, List.length_cons, ih]

theorem ofBits_append (s t : List Bool) : ofBits (s ++ t) = ofBits s * 2 ^ t.length + ofBits t := by
  induction t using List.reverseRecOn with
  | nil => simp [ofBits]
  | append_singleton t bit ih =>
      unfold ofBits at ih ⊢
      rw [← List.append_assoc, List.foldl_append, ih, List.foldl_append, List.length_append,
        List.length_singleton, pow_succ]
      simp only [List.foldl_cons, List.foldl_nil]
      ring

theorem ofBits_replicate (k : Nat) : ofBits (List.replicate k false) = 0 := by
  induction k with
  | zero => rfl
  | succ k ih => rw [List.replicate_succ', ofBits_append, ih]; rfl

/-- The bits of a quotient and then those of the remainder. -/
theorem bitsOf_add (w k n : Nat) :
    bitsOf (w + k) n = bitsOf w (n / 2 ^ k) ++ bitsOf k (n % 2 ^ k) := by
  have high : ((List.range w).map (k + ·)).reverse.map n.testBit = bitsOf w (n / 2 ^ k) := by
    unfold bitsOf
    rw [← List.map_reverse, List.map_map]
    refine List.map_congr_left fun i _ => ?_
    rw [Function.comp_apply, Nat.testBit_div_two_pow, Nat.add_comm]
  have low : (List.range k).reverse.map n.testBit = bitsOf k (n % 2 ^ k) := by
    refine List.map_congr_left fun i member => ?_
    have below : i < k := List.mem_range.mp (List.mem_reverse.mp member)
    rw [Nat.testBit_mod_two_pow, decide_eq_true below, Bool.true_and]
  rw [← high, ← low, ← List.map_append, ← List.reverse_append, ← List.range_add, Nat.add_comm]
  rfl

theorem ofBits_bitsOf (lt : n < 2 ^ w) : ofBits (bitsOf w n) = n := by
  induction w generalizing n with
  | zero =>
      obtain rfl := Nat.lt_one_iff.mp lt
      rfl
  | succ w ih =>
      have half : n / 2 ^ 1 < 2 ^ w := by
        rw [Nat.div_lt_iff_lt_mul (by decide), ← pow_add]
        exact lt
      have bit : ofBits (bitsOf 1 (n % 2 ^ 1)) = n % 2 ^ 1 := by
        rcases Nat.mod_two_eq_zero_or_one n with even | odd
        · rw [pow_one, even]
          rfl
        · rw [pow_one, odd]
          rfl
      rw [bitsOf_add, ofBits_append, ih half, bit, length_bitsOf]
      exact Nat.div_add_mod' n (2 ^ 1)

theorem ofBits_rightpad (w : Nat) (s : List Bool) :
    ofBits (s.rightpad w false) = ofBits s * 2 ^ (w - s.length) := by
  rw [List.rightpad, ofBits_append, ofBits_replicate, List.length_replicate, Nat.add_zero]

theorem ofBits_lt (bits : List Bool) : ofBits bits < 2 ^ bits.length := by
  induction bits using List.reverseRecOn with
  | nil => exact Nat.one_pos
  | append_singleton bits bit ih =>
      have single : ofBits [bit] ≤ 1 := by
        cases bit with
        | false => exact Nat.zero_le _
        | true => exact Nat.le_refl _
      rw [ofBits_append, List.length_append, List.length_singleton, pow_succ]
      omega

theorem lt_of_mem_digitsOf (member : n ∈ digitsOf w k s) : n < 2 ^ w := by
  induction k generalizing s with
  | zero => cases member
  | succ k ih =>
      rcases List.mem_cons.mp member with rfl | member
      · have length : ((s.take w).rightpad w false).length = w := by
          simp [List.rightpad]
        exact lt_of_lt_of_eq (ofBits_lt _) (congrArg (2 ^ ·) length)
      · exact ih member

/-- A full digit in front. -/
theorem digitsOf_append (length : s.length = w) (k : Nat) (t : List Bool) :
    digitsOf w (k + 1) (s ++ t) = ofBits s :: digitsOf w k t := by
  rw [digitsOf, List.take_left' length, List.drop_left' length, ofBits_rightpad, length,
    Nat.sub_self, pow_zero, Nat.mul_one]

/-- A last digit that may be short. -/
theorem digitsOf_last (short : s.length ≤ w) :
    digitsOf w 1 s = [ofBits s * 2 ^ (w - s.length)] := by
  rw [digitsOf, List.take_of_length_le short, ofBits_rightpad, digitsOf]

end Basis

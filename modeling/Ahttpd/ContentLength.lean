import Ahttpd.Parser

/-!
# The length of a body

A `Content-Length` goes through `lexical_cast`, which takes a sign and negates
modulo 2⁶⁴, a subtraction and a conversion to `int`. All that is left of the
number the header denotes is its remainder modulo 2³² (`calls_readLengthBody`).
`content_length_exact_iff` says for which headers, buffers and inputs this does
no harm.
-/

namespace Ahttpd

open Basis

/-- The number a header denotes: digits with an optional sign in front. -/
def intValue (h : Bytes) : Option Int :=
  let (negative, digits) := takeSign h
  if digits ≠ [] ∧ digits.all isDigit then
    some (if negative then -(valueOf 10 digits) else valueOf 10 digits)
  else none

/-- The header is a non-negative decimal number. Whether `+5` is one is left to
`signed`. -/
def IsDecimal (signed : Bool) (h : Bytes) (n : Nat) : Prop :=
  intValue h = some n ∧ (signed = true ∨ h.all isDigit = true)

/-- The number fits a `size_t`, and what is missing behind `buffered` bytes fits
an `int`. -/
def FitsArithmetic (z : Int) (buffered : Nat) : Prop :=
  0 ≤ z ∧ z < 2 ^ 64 ∧ (z = 0 ∨ -2 ^ 31 ≤ z - buffered ∧ z - buffered < 2 ^ 31)

/-- The header decides how many bytes the body gets, or the message is
rejected. -/
structure ContentLengthExact (signed : Bool) (h : Bytes) (pac : Package) (net : Net) : Prop where
  delivers : ∀ pac', some pac' ∈ (parseBody pac net).calls →
    ∃ n data, IsDecimal signed h n ∧ data.length = n ∧ pac' = pac.write data
  rejects : ∀ z, intValue h = some z → ¬FitsArithmetic z net.buf.length →
    (parseBody pac net).calls = [none]

/-- What is missing of the body, modulo 2³². -/
def missing (z : Int) (net : Net) : Nat := ((z - net.buf.length) % 2 ^ 32).toNat

/-- The bytes that come after the buffered ones. -/
def later (net : Net) : Nat := net.reads.flatten.length

/-- A header and an input that `parse_body` gets right: the number is too large
for `lexical_cast`, or it fits; or it is rejected by luck, because what is
missing looks negative or never comes. -/
def LengthSafe (signed : Bool) (h : Bytes) (net : Net) : Prop :=
  ∀ z, intValue h = some z → z.natAbs < 2 ^ 64 →
    (FitsArithmetic z net.buf.length ∧ (signed = true ∨ h.all isDigit = true)) ∨
      z ≠ 0 ∧ (2 ^ 31 ≤ missing z net ∨
        later net < missing z net ∧ (net.ended = true ∨ FitsArithmetic z net.buf.length))

/-! ## The arithmetic -/

section Arithmetic

variable {h : Bytes} {z : Int} {length : Nat} {pac : Package} {net : Net}

/-- `lexical_cast` reduces the number modulo 2⁶⁴. -/
theorem lexicalCast_eq (h : Bytes) : lexicalCastUnsigned (2 ^ 64) h = (intValue h).bind fun z =>
    if z.natAbs < 2 ^ 64 then some (z % 2 ^ 64).toNat else none := by
  unfold lexicalCastUnsigned intValue
  dsimp only
  generalize takeSign h = split
  rcases split with ⟨negative, digits⟩
  dsimp only
  by_cases number : digits ≠ [] ∧ digits.all isDigit = true
  · rw [if_pos number, Option.bind_some]
    have size : (if negative = true then -(valueOf 10 digits : Int)
        else valueOf 10 digits).natAbs = valueOf 10 digits := by
      cases negative <;> simp
    rw [size]
    by_cases small : valueOf 10 digits < 2 ^ 64
    · rw [if_pos ⟨number.1, number.2, small⟩, if_pos small]
      congr 1
      unfold negateIf
      split <;> omega
    · rw [if_neg fun all => small all.2.2, if_neg small]
  · rw [if_neg number, if_neg fun all => number ⟨all.1, all.2.1⟩, Option.bind_none]

/-- The conversion to `int` sees the remainder modulo 2³². -/
theorem needRead_eq_missing (net : Net) (isLength : length = (z % 2 ^ 64).toNat) :
    needRead length net.buf.length =
      if missing z net < 2 ^ 31 then (missing z net : Int) else missing z net - 2 ^ 32 := by
  have same : ((length : Int) - net.buf.length) % 2 ^ 32 = (z - net.buf.length) % 2 ^ 32 := by
    omega
  have isMissing : (missing z net : Int) = (z - net.buf.length) % 2 ^ 32 := by
    unfold missing
    omega
  rw [needRead, toInt32, Int.bmod_def]
  split <;> split <;> omega

/-- **All that is left of the header** is what is missing modulo 2³². -/
theorem calls_readLengthBody (pac : Package) (net : Net) (isLength : length = (z % 2 ^ 64).toNat) :
    (readLengthBody length pac net).calls =
      if 2 ^ 31 ≤ missing z net then [none]
      else if missing z net ≤ later net then
        [some (pac.write (net.remaining.take (net.buf.length + missing z net)))]
      else if net.ended then [none] else [] := by
  have need := needRead_eq_missing net isLength
  rw [readLengthBody, need]
  by_cases large : 2 ^ 31 ≤ missing z net
  · have looksNegative : (missing z net : Int) - 2 ^ 32 < 0 := by
      unfold missing
      omega
    rw [if_neg (Nat.not_lt.mpr large), if_pos looksNegative, if_pos large]
  · rw [if_pos (Nat.lt_of_not_le large), if_neg large, if_neg (by omega), Int.toNat_natCast]
    have split : net.remaining = net.buf ++ net.reads.flatten := rfl
    by_cases none : missing z net = 0
    · rw [none]
      simp only [Nat.cast_zero, if_true, Nat.zero_le, Nat.add_zero, split, List.take_left]
    · dsimp only
      rw [if_neg (by omega)]
      rcases Nat.lt_or_ge (later net) (missing z net) with short | whole
      · rw [if_neg (Nat.not_le.mpr short),
          Segmented.readExactly_of_lt (s := net.withBuf []) short, Segmented.exhausted,
          Segmented.withBuf_ended]
        cases net.ended <;> rfl
      · obtain ⟨t, read, buf, -, -⟩ := Segmented.readExactly_of_le (s := net.withBuf []) whole
        rw [if_pos whole, read]
        dsimp only
        rw [buf, Segmented.withBuf_buf, Segmented.withBuf_reads, List.nil_append,
          Package.write_write, split, List.take_length_add_append]

theorem missing_of_fits (fits : FitsArithmetic z net.buf.length) (nonzero : z ≠ 0)
    (small : missing z net < 2 ^ 31) : (net.buf.length + missing z net : Int) = z := by
  rcases fits with ⟨-, -, zero | ⟨low, high⟩⟩
  · exact absurd zero nonzero
  · unfold missing at small ⊢
    omega

end Arithmetic

/-! ## What the body gets -/

section Exact

variable {signed : Bool} {h : Bytes} {z : Int} {pac : Package} {net : Net}

/-- The handler calls, in the order of the branches of `parse_body`. -/
inductive LengthCalls (h : Bytes) (pac : Package) (net : Net) : List (Option Package) → Prop
  | rejected (tooLarge : ∀ z, intValue h = some z → ¬z.natAbs < 2 ^ 64) :
      LengthCalls h pac net [none]
  | empty (zero : intValue h = some 0) : LengthCalls h pac net [some pac]
  | negative {z : Int} (isValue : intValue h = some z) (nonzero : z ≠ 0)
      (large : 2 ^ 31 ≤ missing z net) : LengthCalls h pac net [none]
  | whole {z : Int} {data : Bytes} (isValue : intValue h = some z) (bounded : z.natAbs < 2 ^ 64)
      (nonzero : z ≠ 0) (small : missing z net < 2 ^ 31) (comes : missing z net ≤ later net)
      (size : data.length = net.buf.length + missing z net) :
      LengthCalls h pac net [some (pac.write data)]
  | short {z : Int} (isValue : intValue h = some z) (bounded : z.natAbs < 2 ^ 64)
      (nonzero : z ≠ 0) (small : missing z net < 2 ^ 31) (fails : later net < missing z net) :
      LengthCalls h pac net (if net.ended then [none] else [])

theorem lengthCalls (net : Net) (isLength : pac.getHeader (str "Content-Length") = some h) :
    LengthCalls h pac net (parseBody pac net).calls := by
  have cast := lexicalCast_eq h
  cases isValue : intValue h with
  | none =>
      rw [isValue, Option.bind_none] at cast
      simp only [parseBody, isLength, cast]
      exact .rejected fun z other => by cases isValue.symm.trans other
  | some z =>
      rw [isValue, Option.bind_some] at cast
      by_cases small : z.natAbs < 2 ^ 64
      · rw [if_pos small] at cast
        obtain ⟨length, reduced⟩ : ∃ length, length = (z % 2 ^ 64).toNat := ⟨_, rfl⟩
        rw [← reduced] at cast
        cases length with
        | zero =>
            obtain rfl : z = 0 := by omega
            simp only [parseBody, isLength, cast]
            exact .empty isValue
        | succ n =>
            have nonzero : z ≠ 0 := by
              rintro rfl
              cases reduced
            have calls := calls_readLengthBody pac net reduced
            simp only [parseBody, isLength, cast]
            rw [calls]
            split
            · rename_i large
              exact .negative isValue nonzero large
            · rename_i fits
              split
              · rename_i comes
                refine .whole isValue small nonzero (Nat.lt_of_not_le fits) comes ?_
                rw [List.length_take, Segmented.remaining, List.length_append]
                exact Nat.min_eq_left (Nat.add_le_add_left comes _)
              · rename_i fails
                exact .short isValue small nonzero (Nat.lt_of_not_le fits) (Nat.lt_of_not_le fails)
      · rw [if_neg small] at cast
        simp only [parseBody, isLength, cast]
        refine .rejected fun z' other => ?_
        obtain rfl := Option.some.inj (isValue.symm.trans other)
        exact small

/-- The property at the number the header denotes. -/
theorem exact_iff (isValue : intValue h = some z) : ContentLengthExact signed h pac net ↔
    (∀ pac', some pac' ∈ (parseBody pac net).calls → (signed = true ∨ h.all isDigit = true) ∧
      ∃ data : Bytes, (data.length : Int) = z ∧ pac' = pac.write data) ∧
    (¬FitsArithmetic z net.buf.length → (parseBody pac net).calls = [none]) := by
  constructor
  · intro exact'
    refine ⟨fun pac' delivered => ?_, exact'.rejects z isValue⟩
    obtain ⟨n, data, ⟨isNumber, digits⟩, size, isPac⟩ := exact'.delivers pac' delivered
    have same := Option.some.inj (isValue.symm.trans isNumber)
    exact ⟨digits, data, by omega, isPac⟩
  · intro both
    rcases both with ⟨delivers, rejects⟩
    constructor
    · intro pac' delivered
      obtain ⟨digits, data, size, isPac⟩ := delivers pac' delivered
      exact ⟨data.length, data, ⟨isValue.trans (congrArg some size.symm), digits⟩, rfl, isPac⟩
    · intro z' other unfit
      obtain rfl := Option.some.inj (isValue.symm.trans other)
      exact rejects unfit

theorem safe_iff (isValue : intValue h = some z) (bounded : z.natAbs < 2 ^ 64) :
    LengthSafe signed h net ↔
      (FitsArithmetic z net.buf.length ∧ (signed = true ∨ h.all isDigit = true)) ∨
        z ≠ 0 ∧ (2 ^ 31 ≤ missing z net ∨
          later net < missing z net ∧ (net.ended = true ∨ FitsArithmetic z net.buf.length)) := by
  constructor
  · intro safe
    exact safe z isValue bounded
  · intro safe z' other _
    obtain rfl := Option.some.inj (isValue.symm.trans other)
    exact safe

/-- A message that is rejected promises nothing. -/
theorem exact_of_rejected (rejected : (parseBody pac net).calls = [none]) :
    ContentLengthExact signed h pac net := by
  refine ⟨?_, fun _ _ _ => rejected⟩
  intro pac' delivered
  rw [rejected] at delivered
  cases List.mem_singleton.mp delivered

/-- A message that is delivered is exact if the number on it is the size of its
body. -/
theorem exact_iff_of_delivered {data : Bytes} (isValue : intValue h = some z)
    (found : (parseBody pac net).calls = [some (pac.write data)])
    (size : FitsArithmetic z net.buf.length → (data.length : Int) = z) :
    ContentLengthExact signed h pac net ↔
      FitsArithmetic z net.buf.length ∧ (signed = true ∨ h.all isDigit = true) := by
  rw [exact_iff isValue, found]
  constructor
  · intro both
    rcases both with ⟨delivers, rejects⟩
    refine ⟨?_, (delivers _ (List.mem_singleton_self _)).1⟩
    by_contra unfit
    cases rejects unfit
  · intro safe
    rcases safe with ⟨fits, digits⟩
    refine ⟨fun pac' delivered => ⟨digits, data, size fits, ?_⟩, absurd fits⟩
    exact Option.some.inj (List.mem_singleton.mp delivered)

/-- A message that does not come is exact unless it should have been rejected
before. -/
theorem exact_iff_of_short (isValue : intValue h = some z)
    (found : (parseBody pac net).calls = if net.ended then [none] else []) :
    ContentLengthExact signed h pac net ↔
      net.ended = true ∨ FitsArithmetic z net.buf.length := by
  rw [exact_iff isValue, found]
  constructor
  · intro exact'
    by_contra neither
    rcases not_or.mp neither with ⟨goesOn, unfit⟩
    have rejected := exact'.2 unfit
    rw [if_neg goesOn] at rejected
    cases rejected
  · intro safe
    constructor
    · intro pac' delivered
      split at delivered <;> simp at delivered
    · intro unfit
      rw [if_pos (safe.resolve_right unfit)]

/-- **A length is exact** just where the header and the input are safe. -/
theorem content_length_exact_iff (isLength : pac.getHeader (str "Content-Length") = some h)
    (signed : Bool) : ContentLengthExact signed h pac net ↔ LengthSafe signed h net := by
  have isCalls := lengthCalls net isLength
  generalize found : (parseBody pac net).calls = calls at isCalls
  cases isCalls with
  | rejected tooLarge =>
      refine iff_of_true (exact_of_rejected found) ?_
      intro z isValue bounded
      exact absurd bounded (tooLarge z isValue)
  | empty zero =>
      have written : (parseBody pac net).calls = [some (pac.write [])] := by
        rw [found, Package.write_nil]
      rw [exact_iff_of_delivered zero written fun _ => rfl, safe_iff zero (by decide)]
      simp only [ne_eq, not_true_eq_false, false_and, or_false]
  | @negative z isValue nonzero large =>
      refine iff_of_true (exact_of_rejected found) fun z' other _ => ?_
      obtain rfl := Option.some.inj (isValue.symm.trans other)
      exact .inr ⟨nonzero, .inl large⟩
  | @whole z data isValue bounded nonzero small comes size =>
      have isSize : FitsArithmetic z net.buf.length → (data.length : Int) = z := by
        intro fits
        have exact' := missing_of_fits fits nonzero small
        omega
      rw [exact_iff_of_delivered isValue found isSize, safe_iff isValue bounded]
      simp only [Nat.not_le.mpr small, Nat.not_lt.mpr comes, false_and, or_false, and_false]
  | @short z isValue bounded nonzero small fails =>
      rw [exact_iff_of_short isValue found, safe_iff isValue bounded]
      simp only [Nat.not_le.mpr small, fails, nonzero, ne_eq, not_false_eq_true, true_and,
        false_or]
      exact ⟨.inr, fun safe => safe.elim (fun fits => .inr fits.1) id⟩

end Exact

section Examples

def withLength (h : Bytes) : Package := { headers := [⟨str "Content-Length", h⟩] }

/-- A body of one byte. -/
def oneByteBody : Net := oneRead (str "x") (by decide)

theorem content_length_exact_of_one :
    ContentLengthExact false (str "1") (withLength (str "1")) oneByteBody := by
  refine (content_length_exact_iff rfl false).mpr fun z isValue _ => ?_
  obtain rfl : 1 = z := Option.some.inj isValue
  exact .inl ⟨⟨by decide, by decide, .inr ⟨by decide, by decide⟩⟩, .inr rfl⟩

/-- A length that is too large by 2³² is reduced. -/
theorem wrapped_length_is_accepted :
    ¬ContentLengthExact true (str "4294967297") (withLength (str "4294967297")) oneByteBody := by
  intro exact'
  have isValue : intValue (str "4294967297") = some 4294967297 := by decide
  have unfit : ¬FitsArithmetic 4294967297 oneByteBody.buf.length := by
    rintro ⟨-, -, zero | ⟨-, high⟩⟩
    · cases zero
    · exact absurd high (by decide)
  have calls : (parseBody (withLength (str "4294967297")) oneByteBody).calls =
      [some ((withLength (str "4294967297")).write (str "x"))] := by
    decide +kernel
  have rejected := exact'.rejects _ isValue unfit
  rw [calls] at rejected
  cases rejected

end Examples

end Ahttpd

import Mathlib.Data.List.TakeWhile
import Mathlib.Data.Nat.Digits.Defs

/-!
# Bytes and the standard library on them

A `std::string` is the list of its bytes. This module has the parts of the C
and C++ libraries that the server applies to bytes: the character classes of
the C locale, `strcasecmp`, number formatting and parsing
(`boost::lexical_cast`, `std::istream >>`), `getline` and `istream::ignore`.
-/

namespace Ahttpd

abbrev Byte := UInt8

abbrev Bytes := List Byte

/-- The byte of an ASCII character. -/
abbrev byte (c : Char) : Byte := UInt8.ofNat c.toNat

/-- The bytes of a literal. -/
def str (literal : String) : Bytes := literal.toList.map byte

abbrev LF : Byte := 10

abbrev CR : Byte := 13

abbrev SP : Byte := 32

/-- `"\r\n"`. -/
abbrev CRLF : Bytes := [CR, LF]

/-! ## Character classes of the C locale -/

def isPrint (c : Byte) : Bool := 32 ≤ c && c ≤ 126

def isSpace (c : Byte) : Bool := c == 32 || (9 ≤ c && c ≤ 13)

def isDigit (c : Byte) : Bool := 48 ≤ c && c ≤ 57

def isXDigit (c : Byte) : Bool := isDigit c || (65 ≤ c && c ≤ 70) || (97 ≤ c && c ≤ 102)

def toLower (c : Byte) : Byte := if 65 ≤ c && c ≤ 90 then c + 32 else c

/-- The part of a string that `c_str()` shows to a C function. -/
def cStr (s : Bytes) : Bytes := s.takeWhile (· ≠ 0)

/-- `strcasecmp(a.c_str(), b.c_str()) == 0`. -/
def strcasecmp (a b : Bytes) : Bool := (cStr a).map toLower == (cStr b).map toLower

/-! ## Formatting and parsing numbers -/

/-- The lower-case digit for `d < 16`. -/
def digitChar (d : Nat) : Byte := UInt8.ofNat (if d < 10 then 48 + d else 87 + d)

/-- The value of a hexadecimal digit. -/
def digitVal (c : Byte) : Nat :=
  if isDigit c then c.toNat - 48 else if 97 ≤ c then c.toNat - 87 else c.toNat - 55

/-- An unsigned number written in a base, as `std::ostream` does. -/
def render (base n : Nat) : Bytes :=
  if n = 0 then [digitChar 0] else (Nat.digits base n).reverse.map digitChar

/-- `boost::lexical_cast<std::string>` of an unsigned number. -/
def decimal (n : Nat) : Bytes := render 10 n

/-- `std::hex << n`. -/
def hex (n : Nat) : Bytes := render 16 n

/-- The number a string of digits denotes. -/
def valueOf (base : Nat) (digits : Bytes) : Nat :=
  digits.foldl (fun value c => value * base + digitVal c) 0

/-- An optional sign: whether it is a minus, and the rest. -/
def takeSign : Bytes → Bool × Bytes
  | 45 :: rest => (true, rest)
  | 43 :: rest => (false, rest)
  | rest => (false, rest)

/-- Negation in an unsigned type of `modulus` values. -/
def negateIf (negative : Bool) (modulus value : Nat) : Nat :=
  if negative then (modulus - value) % modulus else value

/-- `boost::lexical_cast` of a string to an unsigned type of `modulus` values.
It accepts a sign and negates modulo `modulus`. -/
def lexicalCastUnsigned (modulus : Nat) (s : Bytes) : Option Nat :=
  let (negative, digits) := takeSign s
  if digits ≠ [] ∧ digits.all isDigit ∧ valueOf 10 digits < modulus then
    some (negateIf negative modulus (valueOf 10 digits))
  else none

/-- `boost::lexical_cast<long>`. -/
def lexicalCastLong (s : Bytes) : Option Int :=
  let (negative, digits) := takeSign s
  let value : Int := if negative then -valueOf 10 digits else valueOf 10 digits
  if digits ≠ [] ∧ digits.all isDigit ∧ -2 ^ 63 ≤ value ∧ value < 2 ^ 63 then some value else none

/-- What `operator>>` leaves behind: the number, whether the stream is still
good, and the bytes it has not extracted. -/
structure Extracted (α : Type) where
  value : α
  good : Bool
  rest : Bytes

/-- The optional prefix of a hexadecimal number. -/
def takeHexPrefix : Bytes → Bytes
  | 48 :: 120 :: rest | 48 :: 88 :: rest => rest
  | rest => rest

/-- `in >> std::hex >> length` for a `size_t`. White space in front is skipped,
line ends included; a number that does not fit gives the largest value and a
failed stream, no number gives zero and a failed stream. -/
def extractHex (s : Bytes) : Extracted Nat :=
  match s.dropWhile isSpace with
  | [] => ⟨0, false, []⟩
  | c :: rest =>
      let (negative, rest) := takeSign (c :: rest)
      let rest := takeHexPrefix rest
      let digits := rest.takeWhile isXDigit
      let rest := rest.dropWhile isXDigit
      if digits = [] then ⟨0, false, rest⟩
      else if 2 ^ 64 ≤ valueOf 16 digits then ⟨2 ^ 64 - 1, false, rest⟩
      else ⟨negateIf negative (2 ^ 64) (valueOf 16 digits), !rest.isEmpty, rest⟩

/-- `ss >> code` for an `int`. Without anything but white space the variable
keeps what it held; without digits it becomes zero, and a number that does not
fit becomes the nearest that does. -/
def extractInt (s : Bytes) : Option Int :=
  match s.dropWhile isSpace with
  | [] => none
  | c :: rest =>
      let (negative, rest) := takeSign (c :: rest)
      let value := valueOf 10 (rest.takeWhile isDigit)
      some (if negative then max (-2 ^ 31) (-value) else min (2 ^ 31 - 1) value)

/-- Conversion to a 32-bit `int`. -/
def toInt32 (x : Int) : Int := x.bmod (2 ^ 32)

/-- Conversion to a 64-bit `long`. -/
def toInt64 (x : Int) : Int := x.bmod (2 ^ 64)

/-! ## Lines -/

/-- `getline` on a buffer that has a line end: the line and what follows. -/
def getline (buf : Bytes) : Bytes × Bytes :=
  (buf.takeWhile (· ≠ LF), (buf.dropWhile (· ≠ LF)).drop 1)

/-- `in.ignore(limit, '\n')` on a good stream. -/
def ignoreLine : Nat → Bytes → Bytes
  | _, [] => []
  | limit, c :: rest =>
      if limit = 0 then c :: rest
      else if c = LF then rest
      else ignoreLine (limit - 1) rest

/-- A class of characters keeps out the others. -/
theorem not_mem_of_all {s : Bytes} {p : Byte → Bool} {c : Byte} (all : s.all p = true)
    (other : p c = false) : c ∉ s := by
  intro member
  rw [List.all_eq_true.mp all c member] at other
  cases other

/-- Only letters are the lower case of another character. -/
theorem toLower_eq_iff {c d : Byte} (noLetter : d < 65) : toLower c = d ↔ c = d := by
  unfold toLower
  split
  · rename_i upper
    simp only [Bool.and_eq_true, decide_eq_true_eq, UInt8.le_iff_toNat_le] at upper
    have below : d.toNat < 65 := UInt8.lt_iff_toNat_lt.mp noLetter
    have letters : (65 : Byte).toNat = 65 ∧ (90 : Byte).toNat = 90 := ⟨rfl, rfl⟩
    constructor
    · rintro rfl
      rw [UInt8.toNat_add, show (32 : Byte).toNat = 32 from rfl] at below
      omega
    · rintro rfl
      omega
  · exact Iff.rfl

/-! ## Facts about numbers -/

section Numbers

variable {base n : Nat}

theorem digitVal_digitChar : ∀ {d : Nat}, d < 16 → digitVal (digitChar d) = d := by
  decide

theorem isXDigit_digitChar : ∀ {d : Nat}, d < 16 → isXDigit (digitChar d) = true := by
  decide

theorem isDigit_digitChar : ∀ {d : Nat}, d < 10 → isDigit (digitChar d) = true := by
  decide

theorem mem_render (base_gt : 1 < base) {c : Byte} (member : c ∈ render base n) :
    ∃ d, d < base ∧ c = digitChar d := by
  unfold render at member
  split at member
  · exact ⟨0, by omega, List.mem_singleton.mp member⟩
  · rcases List.mem_map.mp member with ⟨d, isDigit, rfl⟩
    exact ⟨d, Nat.digits_lt_base base_gt (List.mem_reverse.mp isDigit), rfl⟩

theorem isDigit_of_mem_decimal {n : Nat} {c : Byte} (member : c ∈ decimal n) :
    isDigit c = true := by
  obtain ⟨d, small, rfl⟩ := mem_render (by decide) member
  exact isDigit_digitChar small

theorem render_ne_nil (base n : Nat) : render base n ≠ [] := by
  unfold render
  split
  · nofun
  · rename_i positive
    simpa using Nat.digits_ne_nil_iff_ne_zero.mpr positive

theorem valueOf_reverse_map {digits : List Nat} (small : ∀ d ∈ digits, d < 16) :
    valueOf base (digits.reverse.map digitChar) = Nat.ofDigits base digits := by
  unfold valueOf
  rw [List.foldl_map, List.foldl_reverse]
  induction digits with
  | nil => rfl
  | cons d digits ih =>
      rcases List.forall_mem_cons.mp small with ⟨lt, small⟩
      rw [List.foldr_cons, ih small, digitVal_digitChar lt, Nat.ofDigits_cons, Nat.mul_comm,
        Nat.add_comm]

/-- Reading back a number that was written. -/
theorem valueOf_render (base_gt : 1 < base) (base_le : base ≤ 16) :
    valueOf base (render base n) = n := by
  unfold render
  split
  · rename_i zero
    subst zero
    simp [valueOf, digitVal_digitChar]
  · rw [valueOf_reverse_map fun d member =>
      Nat.lt_of_lt_of_le (Nat.digits_lt_base base_gt member) base_le, Nat.ofDigits_digits]

theorem takeSign_of_digit {c : Byte} {s : Bytes} (minus : c ≠ 45) (plus : c ≠ 43) :
    takeSign (c :: s) = (false, c :: s) := by
  unfold takeSign
  split <;> simp_all

theorem toInt32_eq {x : Int} (low : -2 ^ 31 ≤ x) (high : x < 2 ^ 31) : toInt32 x = x := by
  unfold toInt32
  rw [Int.bmod_def]
  split <;> omega

theorem toInt64_eq {x : Int} (low : -2 ^ 63 ≤ x) (high : x < 2 ^ 63) : toInt64 x = x := by
  unfold toInt64
  rw [Int.bmod_def]
  split <;> omega

theorem of_lexicalCastLong {s : Bytes} {z : Int} (isValue : lexicalCastLong s = some z) :
    -2 ^ 63 ≤ z ∧ z < 2 ^ 63 := by
  obtain ⟨accepted, isValue⟩ := Option.ite_none_right_eq_some.mp isValue
  obtain rfl := Option.some.inj isValue
  exact accepted.2.2

end Numbers

/-! ## Facts about lines -/

section Lines

variable {p : Byte → Bool} {line rest : Bytes}

theorem takeWhile_append_stop {stop : Byte} (stops : p stop = false) (s t : Bytes) :
    (s ++ stop :: t).takeWhile p = s.takeWhile p := by
  induction s with
  | nil => simp [stops]
  | cons c s ih => simp only [List.cons_append, List.takeWhile_cons, ih]

theorem dropWhile_append_stop {stop : Byte} (stops : p stop = false) (s t : Bytes) :
    (s ++ stop :: t).dropWhile p = s.dropWhile p ++ stop :: t := by
  induction s with
  | nil => simp [stops]
  | cons c s ih =>
      simp only [List.cons_append, List.dropWhile_cons, ih]
      split <;> rfl

theorem takeWhile_ne_eq_self {c : Byte} (absent : c ∉ line) : line.takeWhile (· ≠ c) = line := by
  rw [List.takeWhile_eq_self_iff]
  intro d member
  exact decide_eq_true fun same => absent (same ▸ member)

theorem dropWhile_ne_eq_nil {c : Byte} (absent : c ∉ line) : line.dropWhile (· ≠ c) = [] := by
  rw [List.dropWhile_eq_nil_iff]
  intro d member
  exact decide_eq_true fun same => absent (same ▸ member)

theorem exists_line {buf : Bytes} (member : LF ∈ buf) :
    ∃ line rest, buf = line ++ LF :: rest ∧ LF ∉ line :=
  List.eq_append_cons_of_mem member

theorem getline_append (absent : LF ∉ line) (rest : Bytes) :
    getline (line ++ LF :: rest) = (line, rest) := by
  have stops : decide (LF ≠ LF) = false := rfl
  unfold getline
  rw [takeWhile_append_stop stops, dropWhile_append_stop stops, takeWhile_ne_eq_self absent,
    dropWhile_ne_eq_nil absent]
  rfl

/-- A text starts with one line only. -/
theorem line_unique {line' rest rest' : Bytes} (absent : LF ∉ line) (absent' : LF ∉ line')
    (same : line ++ LF :: rest = line' ++ LF :: rest') : line = line' ∧ rest = rest' := by
  have lines := getline_append absent rest
  rw [same, getline_append absent' rest'] at lines
  rcases Prod.mk.inj lines with ⟨isLine, isRest⟩
  exact ⟨isLine.symm, isRest.symm⟩

theorem ignoreLine_suffix (limit : Nat) (buf : Bytes) : ignoreLine limit buf <:+ buf := by
  induction buf generalizing limit with
  | nil => exact List.suffix_rfl
  | cons c buf ih =>
      unfold ignoreLine
      split
      · exact List.suffix_rfl
      · split
        · exact List.suffix_cons _ _
        · exact (ih _).trans (List.suffix_cons _ _)

theorem ignoreLine_append {limit : Nat} (absent : LF ∉ line) (short : line.length < limit)
    (rest : Bytes) : ignoreLine limit (line ++ LF :: rest) = rest := by
  induction line generalizing limit with
  | nil =>
      have room : limit ≠ 0 := Nat.ne_of_gt short
      rw [List.nil_append, ignoreLine, if_neg room, if_pos rfl]
  | cons c line ih =>
      rcases not_or.mp (List.mem_cons.not.mp absent) with ⟨differs, absent⟩
      rw [List.length_cons] at short
      rw [List.cons_append, ignoreLine, if_neg (by omega), if_neg (Ne.symm differs),
        ih absent (by omega)]

/-- A line end in the buffer hides what follows from `ignore`. -/
theorem ignoreLine_append_of_mem {buf : Bytes} (limit : Nat) (member : LF ∈ buf) (rest : Bytes) :
    ignoreLine limit (buf ++ rest) = ignoreLine limit buf ++ rest := by
  induction buf generalizing limit with
  | nil => exact absurd member List.not_mem_nil
  | cons c buf ih =>
      simp only [List.cons_append, ignoreLine]
      split
      · rfl
      · split
        · rfl
        · rename_i differs
          refine ih _ ?_
          rcases List.mem_cons.mp member with same | later
          · exact absurd same.symm differs
          · exact later

end Lines

/-! ## Facts about chunk sizes -/

section ExtractHex

theorem takeSign_suffix (s : Bytes) : (takeSign s).2 <:+ s := by
  unfold takeSign
  split
  · exact List.suffix_cons _ _
  · exact List.suffix_cons _ _
  · exact List.suffix_rfl

theorem takeHexPrefix_suffix (s : Bytes) : takeHexPrefix s <:+ s := by
  unfold takeHexPrefix
  split
  · exact ⟨[48, 120], rfl⟩
  · exact ⟨[48, 88], rfl⟩
  · exact List.suffix_rfl

theorem takeSign_append {s : Bytes} (nonempty : s ≠ []) (t : Bytes) :
    takeSign (s ++ t) = ((takeSign s).1, (takeSign s).2 ++ t) := by
  cases s with
  | nil => exact absurd rfl nonempty
  | cons c s =>
      unfold takeSign
      split <;> simp_all

theorem takeHexPrefix_append (s t : Bytes) :
    takeHexPrefix (s ++ LF :: t) = takeHexPrefix s ++ LF :: t := by
  match s with
  | [] => rfl
  | [c] =>
      have notX : LF ≠ 120 ∧ LF ≠ 88 := by decide
      rw [List.singleton_append]
      unfold takeHexPrefix
      split <;> simp_all
  | c :: d :: s =>
      simp only [List.cons_append]
      unfold takeHexPrefix
      split <;> simp_all

/-- The extraction only drops bytes from the front. -/
theorem extractHex_suffix (s : Bytes) : (extractHex s).rest <:+ s := by
  unfold extractHex
  split
  · exact List.nil_suffix
  · rename_i c rest eq
    have steps : (takeHexPrefix (takeSign (c :: rest)).2).dropWhile isXDigit <:+ s :=
      (List.dropWhile_suffix _).trans ((takeHexPrefix_suffix _).trans
        ((takeSign_suffix _).trans (eq ▸ List.dropWhile_suffix _)))
    dsimp only
    split
    · exact steps
    · split <;> exact steps

/-- A size other than zero takes a digit. -/
theorem length_extractHex_lt {s : Bytes} (nonzero : (extractHex s).value ≠ 0) :
    (extractHex s).rest.length < s.length := by
  unfold extractHex at nonzero ⊢
  split at nonzero
  · exact absurd rfl nonzero
  · rename_i c rest eq
    have before : takeHexPrefix (takeSign (c :: rest)).2 <:+ s :=
      (takeHexPrefix_suffix _).trans ((takeSign_suffix _).trans (eq ▸ List.dropWhile_suffix _))
    dsimp only at nonzero ⊢
    split at nonzero
    · exact absurd rfl nonzero
    · rename_i digits
      have shorter : ((takeHexPrefix (takeSign (c :: rest)).2).dropWhile isXDigit).length <
          (takeHexPrefix (takeSign (c :: rest)).2).length := by
        have split := congrArg List.length (List.takeWhile_append_dropWhile (p := isXDigit)
          (l := takeHexPrefix (takeSign (c :: rest)).2))
        have positive := List.length_pos_iff.mpr digits
        rw [List.length_append] at split
        omega
      rw [if_neg digits]
      split <;> exact Nat.lt_of_lt_of_le shorter before.length_le

/-- **A size line decides its size.** When a line has more on it than white
space, nothing behind its line end takes part in the extraction. -/
theorem extractHex_line {line : Bytes} (nonblank : ∃ c ∈ line, isSpace c = false) :
    ∃ value good left, left <:+ line ∧
      ∀ rest, extractHex (line ++ LF :: rest) = ⟨value, good, left ++ LF :: rest⟩ := by
  obtain ⟨c, more, split⟩ : ∃ c more, line.dropWhile isSpace = c :: more := by
    cases eq : line.dropWhile isSpace with
    | nil =>
        obtain ⟨c, member, print⟩ := nonblank
        have space := List.dropWhile_eq_nil_iff.mp eq c member
        rw [print] at space
        cases space
    | cons c more => exact ⟨c, more, rfl⟩
  have isLine : line.takeWhile isSpace ++ (c :: more) = line := by
    rw [← split, List.takeWhile_append_dropWhile]
  have visible : ¬ isSpace c = true := by
    have head := List.head?_dropWhile_not isSpace line
    rw [split] at head
    simpa using head
  have skipped : ∀ rest, (line ++ LF :: rest).dropWhile isSpace = c :: (more ++ LF :: rest) := by
    intro rest
    rw [← isLine, List.append_assoc, List.dropWhile_append_of_pos fun d member =>
      List.mem_takeWhile_imp member, List.cons_append, List.dropWhile_cons_of_neg visible]
  have stops : isXDigit LF = false := rfl
  -- what the sign and the prefix leave of the line
  obtain ⟨digits, eq⟩ : ∃ digits, takeHexPrefix (takeSign (c :: more)).2 = digits := ⟨_, rfl⟩
  have taken : ∀ rest, takeHexPrefix (takeSign (c :: (more ++ LF :: rest))).2 =
      digits ++ LF :: rest := by
    intro rest
    rw [← List.cons_append, takeSign_append (List.cons_ne_nil _ _), takeHexPrefix_append, eq]
  have signed : ∀ rest, (takeSign (c :: (more ++ LF :: rest))).1 = (takeSign (c :: more)).1 := by
    intro rest
    rw [← List.cons_append, takeSign_append (List.cons_ne_nil _ _)]
  have isSuffix : digits.dropWhile isXDigit <:+ line :=
    (List.dropWhile_suffix _).trans (eq ▸ (takeHexPrefix_suffix _).trans
      ((takeSign_suffix _).trans (split ▸ List.dropWhile_suffix _)))
  have nonempty : ∀ rest, (digits.dropWhile isXDigit ++ LF :: rest).isEmpty = false := by
    intro rest
    cases digits.dropWhile isXDigit <;> rfl
  by_cases none : digits.takeWhile isXDigit = []
  · refine ⟨0, false, _, isSuffix, fun rest => ?_⟩
    simp only [extractHex, skipped, taken, takeWhile_append_stop stops,
      dropWhile_append_stop stops, none, if_true]
  · by_cases large : 2 ^ 64 ≤ valueOf 16 (digits.takeWhile isXDigit)
    · refine ⟨2 ^ 64 - 1, false, _, isSuffix, fun rest => ?_⟩
      simp only [extractHex, skipped, taken, takeWhile_append_stop stops,
        dropWhile_append_stop stops, none, large, if_true, if_false]
    · refine ⟨negateIf (takeSign (c :: more)).1 (2 ^ 64) (valueOf 16 (digits.takeWhile isXDigit)),
        true, _, isSuffix, fun rest => ?_⟩
      simp only [extractHex, skipped, taken, signed, takeWhile_append_stop stops,
        dropWhile_append_stop stops, none, large, if_false, nonempty, Bool.not_false]

end ExtractHex

end Ahttpd

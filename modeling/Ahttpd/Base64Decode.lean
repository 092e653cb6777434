import Ahttpd.Base64
import Ahttpd.Basis.Bits
import Ahttpd.Basis.Checked

/-!
# Base64 in both directions

`Base64::decode`, and `Base64::encode` against RFC 4648: the bits of the bytes
in order, cut into digits of six (`encode_eq_rfc4648`). Decoding inverts
encoding, and encoding inverts decoding on texts whose padding bits are zero
(`base64_iff`). The decoder counts the characters it has read in an `int`, so
this ends where a text has as many of them as an `int` cannot count.
-/

namespace Ahttpd

open Basis Basis.Checked

namespace Base64

/-! ## The decoder -/

def isBase64 (c : Byte) : Bool :=
  c = 43 || (47 ≤ c && c ≤ 57) || (65 ≤ c && c ≤ 90) || (97 ≤ c && c ≤ 122)

/-- `static_cast<unsigned char>(base64_chars.find(c))`. What is not found is at
`npos`, whose low byte is 255. -/
def find (c : Byte) : Byte :=
  match base64Chars.idxOf? c with
  | some i => .ofNat i
  | none => 255

/-- `char_array_3` for the values of `char_array_4`. -/
def triple (x y z w : Byte) : Bytes :=
  [(x <<< 2) + ((y &&& 0x30) >>> 4),
    ((y &&& 0xf) <<< 4) + ((z &&& 0x3c) >>> 2),
    ((z &&& 0x3) <<< 6) + w]

/-- The bytes for the characters of a group. NULs are looked up for the
characters that are missing. -/
def unpack (group : Bytes) : Bytes :=
  triple (find (group.getD 0 0)) (find (group.getD 1 0)) (find (group.getD 2 0))
    (find (group.getD 3 0))

/-- The largest `int`. -/
def intMax : Nat := 2 ^ 31 - 1

/-- The loop of `decode` on what `input` has from `in_` on: the group that is
left, and `ret`. -/
def decodeLoop (in_ : Nat) (group ret : Bytes) : Bytes → Checked (Bytes × Bytes)
  | [] => .ok (group, ret)
  | c :: input =>
      if c = byte '=' ∨ isBase64 c = false then .ok (group, ret)
      else do
        let in_ ← increment intMax in_
        if (group ++ [c]).length = 4 then
          decodeLoop in_ [] (ret ++ unpack (group ++ [c])) input
        else decodeLoop in_ (group ++ [c]) ret input

/-- What `decode` does with a group that is left. -/
def finish (group ret : Bytes) : Bytes :=
  if group = [] then ret else ret ++ (unpack group).take (group.length - 1)

def decode (input : Bytes) : Checked Bytes := do
  let (group, ret) ← decodeLoop 0 [] [] input
  return finish group ret

example : decode (str "YWh0dHBkOnBhc3M=") = .ok (str "ahttpd:pass") := by decide

/-! ## RFC 4648 -/

/-- The character for a value below 64. -/
def alphabet (n : Nat) : Byte :=
  if n < 26 then .ofNat (65 + n)
  else if n < 52 then .ofNat (97 + (n - 26))
  else if n < 62 then .ofNat (48 + (n - 52))
  else if n = 62 then byte '+'
  else byte '/'

/-- The bits of the bytes in digits of six, the last filled up with zero bits,
and `=` up to a multiple of four characters. -/
def rfc4648 (s : Bytes) : Bytes :=
  let bits := s.flatMap fun c => bitsOf 8 c.toNat
  let digits := digitsOf 6 ((bits.length + 5) / 6) bits
  digits.map alphabet ++ List.replicate ((4 - digits.length % 4) % 4) (byte '=')

/-- Groups of four characters, of which the last may end in `=`, with zero for
the bits that stand for no byte. -/
inductive Canonical : Bytes → Prop
  | nil : Canonical []
  | group {n m k l x} : n < 64 → m < 64 → k < 64 → l < 64 → Canonical x →
      Canonical (alphabet n :: alphabet m :: alphabet k :: alphabet l :: x)
  | two {n m k} : n < 64 → m < 64 → k < 64 → k % 4 = 0 →
      Canonical [alphabet n, alphabet m, alphabet k, byte '=']
  | one {n m} : n < 64 → m < 64 → m % 16 = 0 →
      Canonical [alphabet n, alphabet m, byte '=', byte '=']

section

variable {a b c : Byte} {s x rest group ret : Bytes} {n m k l in_ : Nat}

/-! ## Characters and values -/

theorem charFor_eq_alphabet : ∀ {n : Nat}, n < 64 → charFor (.ofNat n) = alphabet n := by
  decide

theorem find_alphabet : ∀ {n : Nat}, n < 64 → find (alphabet n) = .ofNat n := by
  decide

theorem isBase64_alphabet : ∀ {n : Nat}, n < 64 → isBase64 (alphabet n) = true := by
  decide

theorem charFor_eq (lt : c.toNat < 64) : charFor c = alphabet c.toNat := by
  rw [← charFor_eq_alphabet lt, UInt8.ofNat_toNat]

/-! ## Parts of a byte -/

/-- The bits of a mask, moved to the low end. -/
theorem toNat_and_shiftRight {mask shift : Byte} {width : Nat}
    (isMask : mask.toNat >>> (shift.toNat % 8) = 2 ^ width - 1) (c : Byte) :
    ((c &&& mask) >>> shift).toNat = c.toNat / 2 ^ (shift.toNat % 8) % 2 ^ width := by
  rw [UInt8.toNat_shiftRight, UInt8.toNat_and, Nat.shiftRight_and_distrib, isMask,
    Nat.and_two_pow_sub_one_eq_mod, Nat.shiftRight_eq_div_pow]

/-- The low bits, moved to the high end. -/
theorem toNat_and_shiftLeft {mask shift : Byte} {width : Nat}
    (isMask : mask.toNat = 2 ^ width - 1) (fits : width + shift.toNat % 8 ≤ 8) (c : Byte) :
    ((c &&& mask) <<< shift).toNat = c.toNat % 2 ^ width * 2 ^ (shift.toNat % 8) := by
  have small : c.toNat % 2 ^ width * 2 ^ (shift.toNat % 8) < 2 ^ 8 :=
    calc c.toNat % 2 ^ width * 2 ^ (shift.toNat % 8)
        < 2 ^ width * 2 ^ (shift.toNat % 8) :=
          Nat.mul_lt_mul_of_pos_right (Nat.mod_lt _ (Nat.two_pow_pos _)) (Nat.two_pow_pos _)
      _ = 2 ^ (width + shift.toNat % 8) := (pow_add 2 _ _).symm
      _ ≤ 2 ^ 8 := Nat.pow_le_pow_right (by decide) fits
  rw [UInt8.toNat_shiftLeft, UInt8.toNat_and, isMask, Nat.and_two_pow_sub_one_eq_mod,
    Nat.shiftLeft_eq, Nat.mod_eq_of_lt small]

/-- The four values in three bytes. -/
theorem quad_eq (a b c : Byte) : quad a b c =
    [alphabet (a.toNat / 4), alphabet (a.toNat % 4 * 16 + b.toNat / 16),
      alphabet (b.toNat % 16 * 4 + c.toNat / 64), alphabet (c.toNat % 64)] := by
  have aLt := a.toNat_lt
  have bLt := b.toNat_lt
  have cLt := c.toNat_lt
  have first : ((a &&& 0xfc) >>> 2).toNat = a.toNat / 4 := by
    rw [toNat_and_shiftRight (show _ = 2 ^ 6 - 1 from rfl)]
    change a.toNat / 4 % 64 = _
    omega
  have second : (((a &&& 0x03) <<< 4) + ((b &&& 0xf0) >>> 4)).toNat =
      a.toNat % 4 * 16 + b.toNat / 16 := by
    rw [UInt8.toNat_add, toNat_and_shiftLeft (show _ = 2 ^ 2 - 1 from rfl) (by decide),
      toNat_and_shiftRight (show _ = 2 ^ 4 - 1 from rfl)]
    change (a.toNat % 4 * 16 + b.toNat / 16 % 16) % 256 = _
    omega
  have third : (((b &&& 0x0f) <<< 2) + ((c &&& 0xc0) >>> 6)).toNat =
      b.toNat % 16 * 4 + c.toNat / 64 := by
    rw [UInt8.toNat_add, toNat_and_shiftLeft (show _ = 2 ^ 4 - 1 from rfl) (by decide),
      toNat_and_shiftRight (show _ = 2 ^ 2 - 1 from rfl)]
    change (b.toNat % 16 * 4 + c.toNat / 64 % 4) % 256 = _
    omega
  have fourth : (c &&& 0x3f).toNat = c.toNat % 64 := by
    rw [UInt8.toNat_and]
    exact Nat.and_two_pow_sub_one_eq_mod c.toNat 6
  unfold quad
  rw [charFor_eq (by omega), charFor_eq (by omega), charFor_eq (by omega), charFor_eq (by omega),
    first, second, third, fourth]

/-- The three bytes of four values. -/
theorem triple_eq (n : Nat) (mLt : m < 64) (k l : Nat) :
    triple (.ofNat n) (.ofNat m) (.ofNat k) (.ofNat l) =
      [.ofNat (n * 4 + m / 16), .ofNat (m % 16 * 16 + k % 64 / 4), .ofNat (k % 4 * 64 + l)] := by
  have first : UInt8.ofNat n <<< 2 + ((UInt8.ofNat m &&& 0x30) >>> 4) =
      .ofNat (n * 4 + m / 16) := by
    refine UInt8.toNat_inj.mp ?_
    rw [UInt8.toNat_add, toNat_and_shiftRight (show _ = 2 ^ 2 - 1 from rfl), UInt8.toNat_shiftLeft,
      Nat.shiftLeft_eq, UInt8.toNat_ofNat', UInt8.toNat_ofNat', UInt8.toNat_ofNat']
    change (n % 256 * 4 % 256 + m % 256 / 16 % 4) % 256 = (n * 4 + m / 16) % 256
    omega
  have second : ((UInt8.ofNat m &&& 0xf) <<< 4) + ((UInt8.ofNat k &&& 0x3c) >>> 2) =
      .ofNat (m % 16 * 16 + k % 64 / 4) := by
    refine UInt8.toNat_inj.mp ?_
    rw [UInt8.toNat_add, toNat_and_shiftLeft (show _ = 2 ^ 4 - 1 from rfl) (by decide),
      toNat_and_shiftRight (show _ = 2 ^ 4 - 1 from rfl), UInt8.toNat_ofNat', UInt8.toNat_ofNat',
      UInt8.toNat_ofNat']
    change (m % 256 % 16 * 16 + k % 256 / 4 % 16) % 256 = (m % 16 * 16 + k % 64 / 4) % 256
    omega
  have third : ((UInt8.ofNat k &&& 0x3) <<< 6) + UInt8.ofNat l = .ofNat (k % 4 * 64 + l) := by
    refine UInt8.toNat_inj.mp ?_
    rw [UInt8.toNat_add, toNat_and_shiftLeft (show _ = 2 ^ 2 - 1 from rfl) (by decide),
      UInt8.toNat_ofNat', UInt8.toNat_ofNat', UInt8.toNat_ofNat']
    change (k % 256 % 4 * 64 + l % 256) % 256 = (k % 4 * 64 + l) % 256
    omega
  unfold triple
  rw [first, second, third]

/-! ## The standard -/

theorem length_bits (s : Bytes) : (s.flatMap fun c => bitsOf 8 c.toNat).length = 8 * s.length := by
  induction s with
  | nil => rfl
  | cons c s ih =>
      rw [List.flatMap_cons, List.length_append, ih, length_bitsOf, List.length_cons]
      omega

/-- The sextets of a text. -/
def sextets (s : Bytes) : List Nat :=
  digitsOf 6 ((8 * s.length + 5) / 6) (s.flatMap fun c => bitsOf 8 c.toNat)

theorem rfc4648_eq (s : Bytes) : rfc4648 s = (sextets s).map alphabet ++
    List.replicate ((4 - (8 * s.length + 5) / 6 % 4) % 4) (byte '=') := by
  unfold rfc4648 sextets
  simp only [length_bits, length_digitsOf]

theorem ofBits_pair {v w : Nat} (nLt : n < 2 ^ v) (mLt : m < 2 ^ w) :
    ofBits (bitsOf v n ++ bitsOf w m) = n * 2 ^ w + m := by
  rw [ofBits_append, ofBits_bitsOf nLt, ofBits_bitsOf mLt, length_bitsOf]

/-- One byte at the end: its high bits, and the low ones filled up. -/
theorem sextets_one (a : Byte) : sextets [a] = [a.toNat / 4, a.toNat % 4 * 16] := by
  have aLt := a.toNat_lt
  have bits : bitsOf 8 a.toNat = bitsOf 6 (a.toNat / 4) ++ bitsOf 2 (a.toNat % 4) :=
    bitsOf_add 6 2 _
  unfold sextets
  rw [List.length_singleton, List.flatMap_singleton, bits]
  change digitsOf 6 2 _ = _
  rw [digitsOf_append (length_bitsOf _ _), digitsOf_last (by simp), ofBits_bitsOf (by omega),
    ofBits_bitsOf (by omega), length_bitsOf]
  rfl

/-- Two bytes at the end. -/
theorem sextets_two (a b : Byte) : sextets [a, b] =
    [a.toNat / 4, a.toNat % 4 * 16 + b.toNat / 16, b.toNat % 16 * 4] := by
  have aLt := a.toNat_lt
  have bLt := b.toNat_lt
  have bits : bitsOf 8 a.toNat ++ (bitsOf 8 b.toNat ++ []) = bitsOf 6 (a.toNat / 4) ++
      ((bitsOf 2 (a.toNat % 4) ++ bitsOf 4 (b.toNat / 16)) ++ bitsOf 4 (b.toNat % 16)) := by
    rw [bitsOf_add 6 2 a.toNat, bitsOf_add 4 4 b.toNat]
    simp only [List.append_assoc, List.append_nil]
    rfl
  unfold sextets
  rw [List.flatMap_cons, List.flatMap_cons, List.flatMap_nil, bits, List.length_cons,
    List.length_singleton]
  change digitsOf 6 3 _ = _
  rw [digitsOf_append (length_bitsOf _ _), digitsOf_append (by simp),
    digitsOf_last (by simp), ofBits_bitsOf (by omega), ofBits_pair (by omega) (by omega),
    ofBits_bitsOf (by omega), length_bitsOf]
  rfl

theorem sextetCount_cons (a b c : Byte) (s : Bytes) :
    (8 * (a :: b :: c :: s).length + 5) / 6 = (8 * s.length + 5) / 6 + 4 := by
  simp only [List.length_cons]
  omega

/-- Three bytes in front are four sextets. -/
theorem sextets_cons (a b c : Byte) (s : Bytes) : sextets (a :: b :: c :: s) =
    a.toNat / 4 :: (a.toNat % 4 * 16 + b.toNat / 16) :: (b.toNat % 16 * 4 + c.toNat / 64) ::
      c.toNat % 64 :: sextets s := by
  have aLt := a.toNat_lt
  have bLt := b.toNat_lt
  have cLt := c.toNat_lt
  have bits (rest : List Bool) :
      bitsOf 8 a.toNat ++ (bitsOf 8 b.toNat ++ (bitsOf 8 c.toNat ++ rest)) =
        bitsOf 6 (a.toNat / 4) ++ ((bitsOf 2 (a.toNat % 4) ++ bitsOf 4 (b.toNat / 16)) ++
          ((bitsOf 4 (b.toNat % 16) ++ bitsOf 2 (c.toNat / 64)) ++
            (bitsOf 6 (c.toNat % 64) ++ rest))) := by
    rw [bitsOf_add 6 2 a.toNat, bitsOf_add 4 4 b.toNat, bitsOf_add 2 6 c.toNat]
    simp only [List.append_assoc]
    rfl
  unfold sextets
  rw [sextetCount_cons, List.flatMap_cons, List.flatMap_cons, List.flatMap_cons, bits,
    digitsOf_append (length_bitsOf _ _), digitsOf_append (by simp), digitsOf_append (by simp),
    digitsOf_append (length_bitsOf _ _), ofBits_bitsOf (by omega),
    ofBits_pair (by omega) (by omega), ofBits_pair (by omega) (by omega), ofBits_bitsOf (by omega)]
  rfl

theorem encode_eq_rfc4648 (s : Bytes) : encode s = rfc4648 s := by
  rw [rfc4648_eq]
  fun_induction encode s with
  | case1 => rfl
  | case2 a =>
      rw [sextets_one, quad_eq, List.length_singleton]
      rfl
  | case3 a b =>
      rw [sextets_two, quad_eq, List.length_cons, List.length_singleton]
      rfl
  | case4 a b c input ih =>
      rw [sextets_cons, sextetCount_cons, Nat.add_mod_right, quad_eq, ih]
      rfl

theorem length_encode (s : Bytes) : (encode s).length = 4 * ((s.length + 2) / 3) := by
  rw [encode_eq_rfc4648, rfc4648_eq, List.length_append, List.length_map, sextets, length_digitsOf,
    List.length_replicate]
  omega

/-! ## Decoding -/

theorem reads_of_isBase64 (valid : isBase64 c = true) :
    ¬ (c = byte '=' ∨ isBase64 c = false) := by
  rintro (rfl | invalid)
  · exact absurd valid (by decide)
  · exact Bool.false_ne_true (invalid.symm.trans valid)

/-- A character that is read. -/
theorem decodeLoop_cons (valid : isBase64 c = true) (room : in_ < intMax) (group ret rest : Bytes) :
    decodeLoop in_ group ret (c :: rest) =
      if (group ++ [c]).length = 4 then
        decodeLoop (in_ + 1) [] (ret ++ unpack (group ++ [c])) rest
      else decodeLoop (in_ + 1) (group ++ [c]) ret rest := by
  rw [decodeLoop, if_neg (reads_of_isBase64 valid), increment_of_lt room, ok_bind]

/-- The loop ends in front of a padding character. -/
theorem decodeLoop_equals (in_ : Nat) (group ret rest : Bytes) :
    decodeLoop in_ group ret (byte '=' :: rest) = .ok (group, ret) := by
  rw [decodeLoop, if_pos (.inl rfl)]

/-- More characters than an `int` can count. -/
theorem decodeLoop_overflow (valid : ∀ c ∈ s, isBase64 c = true) (many : intMax < in_ + s.length)
    (few : in_ ≤ intMax) (group ret rest : Bytes) :
    decodeLoop in_ group ret (s ++ rest) = .error .overflow := by
  induction s generalizing in_ group ret with
  | nil => exact absurd few (Nat.not_le_of_lt many)
  | cons c s ih =>
      rcases List.forall_mem_cons.mp valid with ⟨here, valid⟩
      rw [List.length_cons] at many
      rw [List.cons_append]
      rcases Nat.eq_or_lt_of_le few with full | room
      · rw [decodeLoop, if_neg (reads_of_isBase64 here), increment_of_le full.ge, error_bind]
      · rw [decodeLoop_cons here room]
        split
        · exact ih valid (by omega) (by omega) _ _
        · exact ih valid (by omega) (by omega) _ _

/-- Two characters in front of the padding. -/
theorem decodeLoop_two (nLt : n < 64) (mLt : m < 64) (room : in_ + 2 ≤ intMax) (ret rest : Bytes) :
    decodeLoop in_ [] ret (alphabet n :: alphabet m :: byte '=' :: rest) =
      .ok ([alphabet n, alphabet m], ret) := by
  rw [decodeLoop_cons (isBase64_alphabet nLt) (by omega), if_neg (by simp),
    decodeLoop_cons (isBase64_alphabet mLt) (by omega), if_neg (by simp), decodeLoop_equals]
  rfl

/-- Three characters in front of the padding. -/
theorem decodeLoop_three (nLt : n < 64) (mLt : m < 64) (kLt : k < 64) (room : in_ + 3 ≤ intMax)
    (ret rest : Bytes) :
    decodeLoop in_ [] ret (alphabet n :: alphabet m :: alphabet k :: byte '=' :: rest) =
      .ok ([alphabet n, alphabet m, alphabet k], ret) := by
  rw [decodeLoop_cons (isBase64_alphabet nLt) (by omega), if_neg (by simp),
    decodeLoop_cons (isBase64_alphabet mLt) (by omega), if_neg (by simp),
    decodeLoop_cons (isBase64_alphabet kLt) (by omega), if_neg (by simp), decodeLoop_equals]
  rfl

/-- Four characters are three bytes. -/
theorem decodeLoop_group (nLt : n < 64) (mLt : m < 64) (kLt : k < 64) (lLt : l < 64)
    (room : in_ + 4 ≤ intMax) (ret rest : Bytes) :
    decodeLoop in_ [] ret (alphabet n :: alphabet m :: alphabet k :: alphabet l :: rest) =
      decodeLoop (in_ + 4) []
        (ret ++ [.ofNat (n * 4 + m / 16), .ofNat (m % 16 * 16 + k / 4), .ofNat (k % 4 * 64 + l)])
        rest := by
  have unpacked : unpack [alphabet n, alphabet m, alphabet k, alphabet l] =
      [.ofNat (n * 4 + m / 16), .ofNat (m % 16 * 16 + k / 4), .ofNat (k % 4 * 64 + l)] := by
    change triple (find (alphabet n)) (find (alphabet m)) (find (alphabet k))
      (find (alphabet l)) = _
    rw [find_alphabet nLt, find_alphabet mLt, find_alphabet kLt, find_alphabet lLt,
      triple_eq n mLt k l, Nat.mod_eq_of_lt kLt]
  rw [decodeLoop_cons (isBase64_alphabet nLt) (by omega), if_neg (by simp),
    decodeLoop_cons (isBase64_alphabet mLt) (by omega), if_neg (by simp),
    decodeLoop_cons (isBase64_alphabet kLt) (by omega), if_neg (by simp),
    decodeLoop_cons (isBase64_alphabet lLt) (by omega), if_pos (by simp), ← unpacked]
  rfl

/-- A NUL is not found. -/
theorem find_nul : find 0 = .ofNat 255 := by decide

/-- A lookup that failed does not reach the one byte of two characters. -/
theorem finish_two (nLt : n < 64) (mLt : m < 64) (ret : Bytes) :
    finish [alphabet n, alphabet m] ret = ret ++ [.ofNat (n * 4 + m / 16)] := by
  change ret ++ (triple (find (alphabet n)) (find (alphabet m)) (find 0) (find 0)).take 1 = _
  rw [find_alphabet nLt, find_alphabet mLt, find_nul, triple_eq n mLt]
  rfl

/-- Nor the two bytes of three characters. -/
theorem finish_three (nLt : n < 64) (mLt : m < 64) (kLt : k < 64) (ret : Bytes) :
    finish [alphabet n, alphabet m, alphabet k] ret =
      ret ++ [.ofNat (n * 4 + m / 16), .ofNat (m % 16 * 16 + k / 4)] := by
  change ret ++ (triple (find (alphabet n)) (find (alphabet m)) (find (alphabet k))
    (find 0)).take 2 = _
  rw [find_alphabet nLt, find_alphabet mLt, find_alphabet kLt, find_nul, triple_eq n mLt,
    Nat.mod_eq_of_lt kLt]
  rfl

/-! ## Round trips -/

theorem encode_one (a : Byte) : encode [a] =
    [alphabet (a.toNat / 4), alphabet (a.toNat % 4 * 16), byte '=', byte '='] := by
  rw [encode, quad_eq]
  rfl

theorem encode_two (a b : Byte) : encode [a, b] =
    [alphabet (a.toNat / 4), alphabet (a.toNat % 4 * 16 + b.toNat / 16),
      alphabet (b.toNat % 16 * 4), byte '='] := by
  rw [encode, quad_eq]
  rfl

theorem encode_cons (a b c : Byte) (s : Bytes) : encode (a :: b :: c :: s) =
    alphabet (a.toNat / 4) :: alphabet (a.toNat % 4 * 16 + b.toNat / 16) ::
      alphabet (b.toNat % 16 * 4 + c.toNat / 64) :: alphabet (c.toNat % 64) :: encode s := by
  rw [encode, quad_eq]
  rfl

theorem ofNat_eq (same : n = c.toNat) : UInt8.ofNat n = c := by
  rw [same, UInt8.ofNat_toNat]

/-- The loop puts back what was encoded. -/
theorem decodeLoop_encode (few : in_ + (8 * s.length + 5) / 6 ≤ intMax) (ret : Bytes) :
    (do let (group, ret) ← decodeLoop in_ [] ret (encode s)
        return finish group ret : Checked Bytes) = .ok (ret ++ s) := by
  induction s using encode.induct generalizing in_ ret with
  | case1 =>
      rw [List.append_nil]
      rfl
  | case2 a =>
      have aLt := a.toNat_lt
      have same : a.toNat / 4 * 4 + a.toNat % 4 * 16 / 16 = a.toNat := by omega
      rw [List.length_singleton] at few
      rw [encode_one, decodeLoop_two (by omega) (by omega) few, ok_bind]
      change Except.ok (finish _ ret) = _
      rw [finish_two (by omega) (by omega), ofNat_eq same]
  | case3 a b =>
      have aLt := a.toNat_lt
      have bLt := b.toNat_lt
      have first : a.toNat / 4 * 4 + (a.toNat % 4 * 16 + b.toNat / 16) / 16 = a.toNat := by omega
      have second : (a.toNat % 4 * 16 + b.toNat / 16) % 16 * 16 + b.toNat % 16 * 4 / 4 =
          b.toNat := by omega
      rw [List.length_cons, List.length_singleton] at few
      rw [encode_two, decodeLoop_three (by omega) (by omega) (by omega) few, ok_bind]
      change Except.ok (finish _ ret) = _
      rw [finish_three (by omega) (by omega) (by omega), ofNat_eq first, ofNat_eq second]
  | case4 a b c input ih =>
      have aLt := a.toNat_lt
      have bLt := b.toNat_lt
      have cLt := c.toNat_lt
      have first : a.toNat / 4 * 4 + (a.toNat % 4 * 16 + b.toNat / 16) / 16 = a.toNat := by omega
      have second : (a.toNat % 4 * 16 + b.toNat / 16) % 16 * 16 +
          (b.toNat % 16 * 4 + c.toNat / 64) / 4 = b.toNat := by omega
      have third : (b.toNat % 16 * 4 + c.toNat / 64) % 4 * 64 + c.toNat % 64 = c.toNat := by omega
      rw [sextetCount_cons] at few
      rw [encode_cons, decodeLoop_group (by omega) (by omega) (by omega) (by omega) (by omega),
        ofNat_eq first, ofNat_eq second, ofNat_eq third, ih (by omega), List.append_assoc]
      rfl

/-- The characters of an encoding in front of its padding. -/
theorem exists_encode_eq (s : Bytes) : ∃ pad, encode s = (sextets s).map alphabet ++
    List.replicate pad (byte '=') :=
  ⟨_, (encode_eq_rfc4648 s).trans (rfc4648_eq s)⟩

theorem isBase64_of_mem_sextets (s : Bytes) :
    ∀ c ∈ (sextets s).map alphabet, isBase64 c = true := by
  intro c member
  obtain ⟨n, inSextets, rfl⟩ := List.mem_map.mp member
  have lt : n < 2 ^ 6 := lt_of_mem_digitsOf inSextets
  exact isBase64_alphabet lt

theorem length_sextets (s : Bytes) :
    ((sextets s).map alphabet).length = (8 * s.length + 5) / 6 := by
  rw [List.length_map, sextets, length_digitsOf]

/-- **Decoding inverts encoding** as long as an `int` counts the characters. -/
theorem decode_encode (few : (8 * s.length + 5) / 6 ≤ intMax) : decode (encode s) = .ok s :=
  decodeLoop_encode ((Nat.zero_add _).le.trans few) []

theorem decode_encode_overflow (many : intMax < (8 * s.length + 5) / 6) :
    decode (encode s) = .error .overflow := by
  obtain ⟨pad, split⟩ := exists_encode_eq s
  unfold decode
  rw [split, decodeLoop_overflow (isBase64_of_mem_sextets s) (by rw [length_sextets]; omega)
    (Nat.zero_le _), error_bind]

/-- What is decoded at all has been counted. -/
theorem lt_of_decode_encode {t : Bytes} (decoded : decode (encode s) = .ok t) :
    (8 * s.length + 5) / 6 < 2 ^ 31 := by
  by_contra many
  rw [decode_encode_overflow (Nat.lt_of_lt_of_le (by decide) (Nat.le_of_not_lt many))] at decoded
  cases decoded

theorem decode_encode_iff (s : Bytes) :
    decode (encode s) = .ok s ↔ (8 * s.length + 5) / 6 < 2 ^ 31 :=
  ⟨lt_of_decode_encode, fun few => decode_encode (Nat.le_sub_one_of_lt few)⟩

/-- A canonical text is the encoding of some bytes. -/
theorem Canonical.exists_encode (canonical : Canonical x) : ∃ s, encode s = x := by
  induction canonical with
  | nil => exact ⟨[], rfl⟩
  | @group n m k l x nLt mLt kLt lLt _ ih =>
      obtain ⟨s, rfl⟩ := ih
      refine ⟨.ofNat (n * 4 + m / 16) :: .ofNat (m % 16 * 16 + k / 4) ::
        .ofNat (k % 4 * 64 + l) :: s, ?_⟩
      have first : (n * 4 + m / 16) % 2 ^ 8 / 4 = n := by omega
      have second : (n * 4 + m / 16) % 2 ^ 8 % 4 * 16 + (m % 16 * 16 + k / 4) % 2 ^ 8 / 16 = m := by
        omega
      have third : (m % 16 * 16 + k / 4) % 2 ^ 8 % 16 * 4 + (k % 4 * 64 + l) % 2 ^ 8 / 64 = k := by
        omega
      have fourth : (k % 4 * 64 + l) % 2 ^ 8 % 64 = l := by omega
      rw [encode_cons, UInt8.toNat_ofNat', UInt8.toNat_ofNat', UInt8.toNat_ofNat', first, second,
        third, fourth]
  | @two n m k nLt mLt kLt zero =>
      refine ⟨[.ofNat (n * 4 + m / 16), .ofNat (m % 16 * 16 + k / 4)], ?_⟩
      have first : (n * 4 + m / 16) % 2 ^ 8 / 4 = n := by omega
      have second : (n * 4 + m / 16) % 2 ^ 8 % 4 * 16 + (m % 16 * 16 + k / 4) % 2 ^ 8 / 16 = m := by
        omega
      have third : (m % 16 * 16 + k / 4) % 2 ^ 8 % 16 * 4 = k := by omega
      rw [encode_two, UInt8.toNat_ofNat', UInt8.toNat_ofNat', first, second, third]
  | @one n m nLt mLt zero =>
      refine ⟨[.ofNat (n * 4 + m / 16)], ?_⟩
      have first : (n * 4 + m / 16) % 2 ^ 8 / 4 = n := by omega
      have second : (n * 4 + m / 16) % 2 ^ 8 % 4 * 16 = m := by omega
      rw [encode_one, UInt8.toNat_ofNat', first, second]

/-- The characters of an encoding that are no padding. -/
theorem takeWhile_encode (s : Bytes) :
    ((encode s).takeWhile (· ≠ byte '=')).length = (8 * s.length + 5) / 6 := by
  obtain ⟨pad, split⟩ := exists_encode_eq s
  have kept : ∀ c ∈ (sextets s).map alphabet, decide (c ≠ byte '=') = true := by
    intro c member
    refine decide_eq_true fun same => ?_
    have valid := isBase64_of_mem_sextets s c member
    rw [same] at valid
    exact absurd valid (by decide)
  have dropped :
      (List.replicate pad (byte '=')).takeWhile (fun c => decide (c ≠ byte '=')) = [] := by
    cases pad with
    | zero => rfl
    | succ pad => rfl
  rw [split, List.takeWhile_append_of_pos kept, dropped, List.append_nil, length_sextets]

/-- **Base64.** An encoding is that of the standard. Decoding inverts encoding
and encoding inverts decoding of canonical texts exactly where the characters
that are no padding fit into an `int`. -/
theorem base64_iff (s x : Bytes) :
    ((encode s = rfc4648 s ∧ (encode s).length = 4 * ((s.length + 2) / 3) ∧
      decode (encode s) = .ok s) ↔ (8 * s.length + 5) / 6 < 2 ^ 31) ∧
    (Canonical x → ((∃ t, decode x = .ok t ∧ encode t = x) ↔
      (x.takeWhile (· ≠ byte '=')).length < 2 ^ 31)) := by
  constructor
  · rw [← decode_encode_iff]
    constructor
    · rintro ⟨-, -, decoded⟩
      exact decoded
    · intro decoded
      exact ⟨encode_eq_rfc4648 s, length_encode s, decoded⟩
  · intro canonical
    obtain ⟨t, rfl⟩ := canonical.exists_encode
    rw [takeWhile_encode]
    constructor
    · rintro ⟨u, decoded, -⟩
      exact lt_of_decode_encode decoded
    · intro few
      exact ⟨t, (decode_encode_iff t).mpr few, rfl⟩

/-- The zeros of which the encoding has one character too many. -/
theorem decode_encode_zeros :
    decode (encode (List.replicate (3 * 2 ^ 29) 0)) ≠ .ok (List.replicate (3 * 2 ^ 29) 0) := by
  rw [Ne, decode_encode_iff, List.length_replicate]
  decide

end

end Base64

end Ahttpd

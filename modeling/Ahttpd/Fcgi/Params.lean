import Ahttpd.Fcgi.Request

/-!
# Name-value pairs

The high bit of the first byte of a length says whether the length has one byte
or four. `key_value` writes one byte up to 255, so a length from 128 on looks
to a reader like the first of four bytes. A pair is read back exactly when
neither length is between 128 and 255 (`takePair_keyValue_iff`).
-/

namespace Ahttpd.Fcgi

/-! ## The reader of pairs -/

/-- The length in front of a text, and the rest. -/
def takeLength : Bytes → Option (Nat × Bytes)
  | [] => none
  | b3 :: rest =>
      if b3.toNat < 0x80 then some (b3.toNat, rest)
      else
        match rest with
        | b2 :: b1 :: b0 :: rest =>
            some ((b3.toNat - 0x80) * 2 ^ 24 + b2.toNat * 2 ^ 16 + b1.toNat * 2 ^ 8 + b0.toNat, rest)
        | _ => none

/-- The name, the value and the rest. -/
def takePair (s : Bytes) : Option (Bytes × Bytes × Bytes) := do
  let (nameLength, rest) ← takeLength s
  let (valueLength, rest) ← takeLength rest
  if nameLength + valueLength ≤ rest.length then
    some (rest.take nameLength, (rest.drop nameLength).take valueLength,
      rest.drop (nameLength + valueLength))
  else none

/-- A length whose one-byte form has a clear high bit, or that has four bytes. -/
def Unambiguous (size : Nat) : Prop := size < 0x80 ∨ 0xFF < size

instance (size : Nat) : Decidable (Unambiguous size) := by
  unfold Unambiguous
  infer_instance

section Lengths

variable {size : Nat} {s rest : Bytes}

theorem lengthBytes_of_small (small : size ≤ 0xFF) : lengthBytes size = [UInt8.ofNat size] :=
  if_neg (Nat.not_lt.mpr small)

theorem lengthBytes_of_large (large : 0xFF < size) (fits : size < 2 ^ 31) :
    lengthBytes size = [UInt8.ofNat (size / 2 ^ 24 + 0x80), UInt8.ofNat (size / 2 ^ 16),
      UInt8.ofNat (size / 2 ^ 8), UInt8.ofNat size] := by
  have low (n : Nat) : UInt8.ofNat (n &&& 0xFF) = UInt8.ofNat n := by
    rw [show n &&& 0xFF = n % 2 ^ 8 from Nat.and_two_pow_sub_one_eq_mod _ 8]
    exact UInt8.ofNat_mod_size
  have small : size / 2 ^ 24 < 2 ^ 7 := by omega
  have high : size >>> 24 &&& 0xFF ||| 0x80 = size / 2 ^ 24 + 0x80 := by
    rw [show size >>> 24 &&& 0xFF = size >>> 24 % 2 ^ 8 from
      Nat.and_two_pow_sub_one_eq_mod _ 8, Nat.shiftRight_eq_div_pow, Nat.mod_eq_of_lt (by omega),
      Nat.or_comm, ← Nat.two_pow_add_eq_or_of_lt small 1, Nat.add_comm]
  unfold lengthBytes
  rw [if_pos large, high, low, low, low, Nat.shiftRight_eq_div_pow, Nat.shiftRight_eq_div_pow]

theorem length_lengthBytes (size : Nat) :
    (lengthBytes size).length = if size ≤ 0xFF then 1 else 4 := by
  unfold lengthBytes
  split <;> split <;> first | rfl | omega

theorem takeLength_of_small {c : Byte} (small : c.toNat < 0x80) :
    takeLength (c :: rest) = some (c.toNat, rest) := if_pos small

/-- An unambiguous length is read back. -/
theorem takeLength_lengthBytes (apart : Unambiguous size) (fits : size < 2 ^ 31) :
    takeLength (lengthBytes size ++ rest) = some (size, rest) := by
  rcases apart with small | large
  · have value : (UInt8.ofNat size).toNat = size := by
      rw [UInt8.toNat_ofNat']
      omega
    rw [lengthBytes_of_small (by omega), List.singleton_append,
      takeLength_of_small (value.symm ▸ small), value]
  · rw [lengthBytes_of_large large fits]
    simp only [List.cons_append, List.nil_append, takeLength, UInt8.toNat_ofNat']
    rw [if_neg (by omega)]
    congr 2
    omega

/-- What is read from one byte is less than 128; the first of four bytes has
the high bit set. -/
theorem of_takeLength (read : takeLength s = some (size, rest)) :
    (s.length = rest.length + 1 ∧ size < 0x80 ∧ ∃ c ∈ s.head?, c.toNat < 0x80) ∨
      (s.length = rest.length + 4 ∧ ∃ c ∈ s.head?, 0x80 ≤ c.toNat) := by
  unfold takeLength at read
  split at read
  · cases read
  · rename_i c s
    split at read
    · rename_i small
      rcases Prod.mk.inj (Option.some.inj read) with ⟨rfl, rfl⟩
      exact .inl ⟨rfl, small, c, rfl, small⟩
    · rename_i large
      split at read
      · rcases Prod.mk.inj (Option.some.inj read) with ⟨rfl, rfl⟩
        exact .inr ⟨rfl, c, rfl, Nat.le_of_not_lt large⟩
      · cases read

/-- The number of bytes a reader takes for a length. -/
theorem length_of_takeLength {size' : Nat} (fits : size < 2 ^ 31)
    (read : takeLength (lengthBytes size ++ rest) = some (size', s)) :
    (lengthBytes size ++ rest).length = s.length + if size < 0x80 then 1 else 4 := by
  rcases of_takeLength read with ⟨length, -, c, isHead, small⟩ | ⟨length, c, isHead, large⟩
  · rw [length]
    rcases Nat.lt_or_ge 0xFF size with four | one
    · rw [lengthBytes_of_large four fits] at isHead
      obtain rfl := Option.some.inj isHead
      rw [UInt8.toNat_ofNat'] at small
      omega
    · rw [lengthBytes_of_small one] at isHead
      obtain rfl := Option.some.inj isHead
      rw [UInt8.toNat_ofNat'] at small
      rw [if_pos (by omega)]
  · rw [length]
    rcases Nat.lt_or_ge 0xFF size with four | one
    · rw [if_neg (by omega)]
    · rw [lengthBytes_of_small one] at isHead
      obtain rfl := Option.some.inj isHead
      rw [UInt8.toNat_ofNat'] at large
      rw [if_neg (by omega)]

end Lengths

/-! ## Pairs -/

section Pairs

variable {name value : Bytes}

theorem takePair_of_unambiguous (nameFits : name.length < 2 ^ 31) (valueFits : value.length < 2 ^ 31)
    (isName : Unambiguous name.length) (isValue : Unambiguous value.length) :
    takePair (keyValue name value) = some (name, value, []) := by
  have first : takeLength (keyValue name value) =
      some (name.length, lengthBytes value.length ++ (name ++ value)) := by
    rw [keyValue, List.append_assoc, List.append_assoc]
    exact takeLength_lengthBytes isName nameFits
  have second : takeLength (lengthBytes value.length ++ (name ++ value)) =
      some (value.length, name ++ value) := takeLength_lengthBytes isValue valueFits
  have whole : name.length + value.length ≤ (name ++ value).length := by
    rw [List.length_append]
  unfold takePair
  simp only [first, second, Option.bind_eq_bind, Option.bind_some, if_pos whole,
    List.take_left, List.drop_left, List.take_length]
  rw [← List.length_append, List.drop_length]

/-- A pair that is read back whole has the lengths that were written, so as many
bytes were taken for them. -/
theorem unambiguous_of_takePair (nameFits : name.length < 2 ^ 31)
    (read : takePair (keyValue name value) = some (name, value, [])) :
    Unambiguous name.length ∧ Unambiguous value.length := by
  unfold takePair at read
  rcases Option.bind_eq_some_iff.mp read with ⟨⟨nameLength, s⟩, first, read⟩
  rcases Option.bind_eq_some_iff.mp read with ⟨⟨valueLength, rest⟩, second, read⟩
  dsimp only at second read
  split at read
  · rename_i whole
    simp only [Option.some.injEq, Prod.mk.injEq] at read
    obtain ⟨isName, isValue, isEnd⟩ := read
    have sizeName := congrArg List.length isName
    have sizeValue := congrArg List.length isValue
    have sizeEnd := congrArg List.length isEnd
    simp only [List.length_take, List.length_drop, List.length_nil] at sizeName sizeValue sizeEnd
    rw [keyValue, List.append_assoc, List.append_assoc] at first
    have taken := length_of_takeLength nameFits first
    simp only [List.length_append, length_lengthBytes] at taken
    unfold Unambiguous
    rcases of_takeLength second with ⟨left, small, -⟩ | ⟨left, -⟩
    · split at taken <;> split at taken <;> split at taken <;> omega
    · split at taken <;> split at taken <;> split at taken <;> omega
  · cases read

/-- **Name-value pairs.** What `key_value` writes is read back as its name and
its value exactly when neither has from 128 to 255 bytes. -/
theorem takePair_keyValue_iff (nameFits : name.length < 2 ^ 31)
    (valueFits : value.length < 2 ^ 31) :
    takePair (keyValue name value) = some (name, value, []) ↔
      Unambiguous name.length ∧ Unambiguous value.length := by
  constructor
  · exact unambiguous_of_takePair nameFits
  · intro apart
    exact takePair_of_unambiguous nameFits valueFits apart.1 apart.2

theorem takePair_keyValue_of_method :
    takePair (keyValue (str "REQUEST_METHOD") (str "GET")) =
      some (str "REQUEST_METHOD", str "GET", []) :=
  (takePair_keyValue_iff (by decide) (by decide)).mpr (by decide)

/-- A value of 128 bytes is not read back. -/
theorem takePair_of_long_cookie :
    takePair (keyValue (str "HTTP_COOKIE") (List.replicate 128 (byte 'a'))) ≠
      some (str "HTTP_COOKIE", List.replicate 128 (byte 'a'), []) := by
  intro read
  have apart := (unambiguous_of_takePair (by decide) read).2
  rw [List.length_replicate] at apart
  exact absurd apart (by decide)

end Pairs

end Ahttpd.Fcgi

import Ahttpd.Matching
import Ahttpd.Utils

/-!
# URL coding

`urlEncode`, and `urlDecode` as the source runs it, with an index into the
string it is given. `urlDecodeRef_eq` says that this is the `urlDecode` on lists
that the request line uses, so its facts are proved by recursion on the bytes:
the coding round trip, the alphabet of an encoded string, and exactly what is
decoded (`urlDecode_isSome_iff`).
-/

namespace Ahttpd

/-- `std::isalnum` in the C locale. -/
def isAlnum (c : Byte) : Bool := isDigit c || (65 ≤ c && c ≤ 90) || (97 ≤ c && c ≤ 122)

/-- The digit for a nibble. -/
def toHex (x : Byte) : Byte := if x > 9 then x + 55 else x + 48

/-- What one turn of the loop of `urlEncode` appends. -/
def urlEncodeByte (c : Byte) : Bytes :=
  if isAlnum c ∨ c = byte '-' ∨ c = byte '_' ∨ c = byte '.' ∨ c = byte '~' then [c]
  else if c = byte ' ' then str "+"
  else [byte '%', toHex (c >>> 4), toHex (c % 16)]

def urlEncode (s : Bytes) : Bytes :=
  s.foldl (fun strTemp c => strTemp ++ urlEncodeByte c) []

/-- The loop of `urlDecode` at index `i`: the decoded string, or nothing where
it returns false. -/
def urlDecodeLoop (s : Bytes) (i : Nat) (strTemp : Bytes) : Option Bytes :=
  if i < s.length then
    if charAt s i = byte '+' then urlDecodeLoop s (i + 1) (strTemp ++ [byte ' '])
    else if charAt s i = byte '%' then
      if i + 2 ≥ s.length then none
      else
        match fromHex (charAt s (i + 1)), fromHex (charAt s (i + 2)) with
        | some high, some low => urlDecodeLoop s (i + 3) (strTemp ++ [high * 16 + low])
        | _, _ => none
    else urlDecodeLoop s (i + 1) (strTemp ++ [charAt s i])
  else some strTemp
termination_by s.length - i

/-- `urlDecode` on the string that is passed by reference: what it returns, and
the string afterwards. -/
def urlDecodeRef (s : Bytes) : Bool × Bytes :=
  match urlDecodeLoop s 0 [] with
  | some strTemp => (true, strTemp)
  | none => (false, s)

/-- Two hexadecimal digits follow every percent sign. -/
def PercentsEscape (s : Bytes) : Prop :=
  ∀ after, byte '%' :: after <:+ s →
    ∃ high low rest, after = high :: low :: rest ∧ isXDigit high = true ∧ isXDigit low = true

section

variable {c : Byte} {s : Bytes}

/-! ## One step of decoding -/

theorem urlDecode_plus (s : Bytes) :
    urlDecode (byte '+' :: s) = (byte ' ' :: ·) <$> urlDecode s := by
  rw [urlDecode.eq_def (byte '+' :: s)]
  exact if_pos rfl

theorem urlDecode_percent (high low : Byte) (s : Bytes) :
    urlDecode (byte '%' :: high :: low :: s) = (do
      let high ← fromHex high
      let low ← fromHex low
      ((high * 16 + low) :: ·) <$> urlDecode s) := by
  rw [urlDecode, if_neg (by decide), if_pos rfl]

theorem urlDecode_percent_short (short : s.length < 2) : urlDecode (byte '%' :: s) = none := by
  unfold urlDecode
  rw [if_neg (by decide), if_pos rfl]
  match s, short with
  | [], _ => rfl
  | [_], _ => rfl

theorem urlDecode_other (plus : c ≠ byte '+') (percent : c ≠ byte '%') (s : Bytes) :
    urlDecode (c :: s) = (c :: ·) <$> urlDecode s := by
  rw [urlDecode.eq_def (c :: s)]
  dsimp only
  rw [if_neg plus, if_neg percent]

/-! ## The loop over the string -/

theorem drop_eq_charAt_cons {i : Nat} (inside : i < s.length) :
    s.drop i = charAt s i :: s.drop (i + 1) := by
  rw [List.drop_eq_getElem_cons inside, charAt, List.getD_eq_getElem?_getD,
    List.getElem?_eq_getElem inside, Option.getD_some]

theorem map_append_map (strTemp : Bytes) (c : Byte) (decoded : Option Bytes) :
    ((strTemp ++ [c]) ++ ·) <$> decoded = (strTemp ++ ·) <$> ((c :: ·) <$> decoded) := by
  cases decoded with
  | none => rfl
  | some t => exact congrArg some (List.append_assoc strTemp [c] t)

/-- The loop decodes what it has not passed yet. -/
theorem urlDecodeLoop_eq (s : Bytes) (i : Nat) (strTemp : Bytes) :
    urlDecodeLoop s i strTemp = (strTemp ++ ·) <$> urlDecode (s.drop i) := by
  induction i, strTemp using urlDecodeLoop.induct s with
  | case1 i strTemp inside plus ih =>
      rw [urlDecodeLoop, if_pos inside, if_pos plus, ih, drop_eq_charAt_cons inside, plus,
        urlDecode_plus, map_append_map]
  | case2 i strTemp inside notPlus percent short =>
      have few : (s.drop (i + 1)).length < 2 := by
        rw [List.length_drop]
        omega
      rw [urlDecodeLoop, if_pos inside, if_neg notPlus, if_pos percent, if_pos short,
        drop_eq_charAt_cons inside, percent, urlDecode_percent_short few]
      rfl
  | case3 i strTemp inside notPlus percent long high low isHigh isLow ih =>
      rw [urlDecodeLoop, if_pos inside, if_neg notPlus, if_pos percent, if_neg long,
        drop_eq_charAt_cons inside, drop_eq_charAt_cons (by omega : i + 1 < s.length),
        drop_eq_charAt_cons (by omega : i + 2 < s.length), percent, urlDecode_percent, isHigh,
        isLow]
      exact ih.trans (map_append_map _ _ _)
  | case4 i strTemp inside notPlus percent long noDigits =>
      rw [urlDecodeLoop, if_pos inside, if_neg notPlus, if_pos percent, if_neg long,
        drop_eq_charAt_cons inside, drop_eq_charAt_cons (by omega : i + 1 < s.length),
        drop_eq_charAt_cons (by omega : i + 2 < s.length), percent, urlDecode_percent]
      cases isHigh : fromHex (charAt s (i + 1)) with
      | none => rfl
      | some high =>
          cases isLow : fromHex (charAt s (i + 2)) with
          | none => rfl
          | some low => exact absurd isLow (noDigits high low isHigh)
  | case5 i strTemp inside notPlus notPercent ih =>
      rw [urlDecodeLoop, if_pos inside, if_neg notPlus, if_neg notPercent, ih,
        drop_eq_charAt_cons inside, urlDecode_other notPlus notPercent, map_append_map]
  | case6 i strTemp outside =>
      rw [urlDecodeLoop, if_neg outside, List.drop_of_length_le (by omega)]
      exact congrArg some (List.append_nil strTemp).symm

/-- `urlDecode` on lists is the function of the source: `none` stands for false,
and then the string stays as it was. -/
theorem urlDecodeRef_eq (s : Bytes) :
    urlDecodeRef s = ((urlDecode s).isSome, (urlDecode s).getD s) := by
  unfold urlDecodeRef
  rw [urlDecodeLoop_eq, List.drop_zero]
  cases urlDecode s <;> rfl

/-! ## What is decoded -/

theorem fromHex_isSome (x : Byte) : (fromHex x).isSome = isXDigit x := by
  unfold fromHex isXDigit isDigit
  by_cases upper : byte 'A' ≤ x ∧ x ≤ byte 'F'
  · rw [if_pos upper]
    simp [show 65 ≤ x ∧ x ≤ 70 from upper]
  · rw [if_neg upper]
    by_cases lower : byte 'a' ≤ x ∧ x ≤ byte 'f'
    · rw [if_pos lower]
      simp [show 97 ≤ x ∧ x ≤ 102 from lower]
    · rw [if_neg lower]
      by_cases digit : byte '0' ≤ x ∧ x ≤ byte '9'
      · rw [if_pos digit]
        simp [show 48 ≤ x ∧ x ≤ 57 from digit]
      · rw [if_neg digit]
        have noUpper : ¬(65 ≤ x ∧ x ≤ 70) := upper
        have noLower : ¬(97 ≤ x ∧ x ≤ 102) := lower
        have noDigit : ¬(48 ≤ x ∧ x ≤ 57) := digit
        simp only [← Bool.decide_and, noUpper, noLower, noDigit, decide_false]
        rfl

theorem percentsEscape_cons : PercentsEscape (c :: s) ↔
    (c = byte '%' → ∃ high low rest, s = high :: low :: rest ∧ isXDigit high = true ∧
      isXDigit low = true) ∧ PercentsEscape s := by
  constructor
  · intro escape
    constructor
    · rintro rfl
      exact escape s List.suffix_rfl
    · intro after suffix
      exact escape after (suffix.trans (List.suffix_cons c s))
  · rintro ⟨first, escape⟩ after suffix
    rcases List.suffix_cons_iff.mp suffix with same | suffix
    · rcases List.cons.inj same with ⟨percent, rfl⟩
      exact first percent.symm
    · exact escape after suffix

theorem percentsEscape_of_ne (percent : c ≠ byte '%') :
    PercentsEscape (c :: s) ↔ PercentsEscape s := by
  rw [percentsEscape_cons]
  exact and_iff_right fun same => absurd same percent

theorem ne_percent_of_isXDigit (digit : isXDigit c = true) : c ≠ byte '%' := by
  rintro rfl
  exact absurd digit (by decide)

theorem percentsEscape_percent {high low : Byte} : PercentsEscape (byte '%' :: high :: low :: s) ↔
    isXDigit high = true ∧ isXDigit low = true ∧ PercentsEscape s := by
  rw [percentsEscape_cons]
  constructor
  · rintro ⟨first, escape⟩
    obtain ⟨_, _, _, same, isHigh, isLow⟩ := first rfl
    simp only [List.cons.injEq] at same
    obtain ⟨rfl, rfl, rfl⟩ := same
    rw [percentsEscape_of_ne (ne_percent_of_isXDigit isHigh),
      percentsEscape_of_ne (ne_percent_of_isXDigit isLow)] at escape
    exact ⟨isHigh, isLow, escape⟩
  · rintro ⟨isHigh, isLow, escape⟩
    rw [percentsEscape_of_ne (ne_percent_of_isXDigit isHigh),
      percentsEscape_of_ne (ne_percent_of_isXDigit isLow)]
    exact ⟨fun _ => ⟨high, low, s, rfl, isHigh, isLow⟩, escape⟩

theorem isSome_map {decoded : Option Bytes} (f : Bytes → Bytes) :
    (f <$> decoded).isSome = decoded.isSome := Option.isSome_map

/-- **What is decoded** is exactly what has two hexadecimal digits behind every
percent sign. -/
theorem urlDecode_isSome_iff (s : Bytes) : (urlDecode s).isSome = true ↔ PercentsEscape s := by
  induction s using urlDecode.induct with
  | case1 =>
      refine iff_of_true rfl ?_
      intro after suffix
      exact absurd (List.suffix_nil.mp suffix) (List.cons_ne_nil _ _)
  | case2 s ih =>
      rw [urlDecode_plus, isSome_map, ih, percentsEscape_of_ne (by decide)]
  | case3 high low s notPlus ih =>
      rw [urlDecode_percent, percentsEscape_percent, ← ih, ← fromHex_isSome, ← fromHex_isSome]
      cases fromHex high with
      | none => simp
      | some high =>
          cases fromHex low with
          | none => simp
          | some low => simp
  | case4 s notTwo notPlus =>
      have few : s.length < 2 := by
        match s, notTwo with
        | [], _ => exact Nat.two_pos
        | [_], _ => exact Nat.one_lt_two
        | high :: low :: rest, notTwo => exact absurd rfl (notTwo high low rest)
      rw [urlDecode_percent_short few]
      refine iff_of_false Bool.false_ne_true ?_
      intro escape
      obtain ⟨_, _, _, rfl, _⟩ := escape s List.suffix_rfl
      simp only [List.length_cons] at few
      omega
  | case5 c s plus percent ih =>
      rw [urlDecode_other plus percent, isSome_map, ih, percentsEscape_of_ne percent]

/-! ## Encoding -/

theorem urlEncode_eq_flatMap (s : Bytes) : urlEncode s = s.flatMap urlEncodeByte := by
  have start : ∀ strTemp : Bytes, s.foldl (fun strTemp c => strTemp ++ urlEncodeByte c) strTemp =
      strTemp ++ s.flatMap urlEncodeByte := by
    induction s with
    | nil => simp
    | cons c s ih =>
        intro strTemp
        rw [List.foldl_cons, ih, List.flatMap_cons, List.append_assoc]
  exact start []

theorem fromHex_toHex : ∀ {n : Nat}, n < 16 → fromHex (toHex (.ofNat n)) = some (.ofNat n) := by
  decide

/-- The characters that an encoded string is made of. -/
def IsUrlCharacter (c : Byte) : Prop := isAlnum c = true ∨ c ∈ str "-_.~+%"

theorem isAlnum_toHex : ∀ {n : Nat}, n < 16 → isAlnum (toHex (.ofNat n)) = true := by
  decide

/-- A byte is made of two nibbles. -/
theorem nibbles (c : Byte) : ∃ high low : Nat, high < 16 ∧ low < 16 ∧ c >>> 4 = .ofNat high ∧
    c % 16 = .ofNat low ∧ UInt8.ofNat high * 16 + UInt8.ofNat low = c := by
  have lt := c.toNat_lt
  have four : (4 : Byte).toNat % 8 = 4 := rfl
  have sixteen : (16 : Byte).toNat = 16 := rfl
  refine ⟨c.toNat / 16, c.toNat % 16, by omega, by omega, ?_, ?_, ?_⟩
  · apply UInt8.toNat_inj.mp
    rw [UInt8.toNat_shiftRight, UInt8.toNat_ofNat', four, Nat.shiftRight_eq_div_pow]
    omega
  · apply UInt8.toNat_inj.mp
    rw [UInt8.toNat_mod, UInt8.toNat_ofNat', sixteen]
    omega
  · apply UInt8.toNat_inj.mp
    rw [UInt8.toNat_add, UInt8.toNat_mul, UInt8.toNat_ofNat', UInt8.toNat_ofNat', sixteen]
    omega

theorem urlDecode_urlEncodeByte (c : Byte) (s : Bytes) :
    urlDecode (urlEncodeByte c ++ s) = (c :: ·) <$> urlDecode s := by
  unfold urlEncodeByte
  split
  · rename_i kept
    rw [List.singleton_append]
    apply urlDecode_other
    · rintro rfl
      exact absurd kept (by decide)
    · rintro rfl
      exact absurd kept (by decide)
  · split
    · rename_i space
      rw [space]
      exact urlDecode_plus s
    · obtain ⟨high, low, highLt, lowLt, isHigh, isLow, whole⟩ := nibbles c
      rw [isHigh, isLow, List.cons_append, List.cons_append, List.cons_append, List.nil_append,
        urlDecode_percent, fromHex_toHex highLt, fromHex_toHex lowLt]
      simp only [Option.bind_eq_bind, Option.bind_some, whole]

/-- **Coding round trip.** -/
theorem urlDecode_urlEncode (s : Bytes) : urlDecode (urlEncode s) = some s := by
  rw [urlEncode_eq_flatMap]
  induction s with
  | nil => rfl
  | cons c s ih =>
      rw [List.flatMap_cons, urlDecode_urlEncodeByte, ih]
      rfl

theorem isUrlCharacter_of_mem {d : Byte} (member : d ∈ urlEncodeByte c) : IsUrlCharacter d := by
  unfold urlEncodeByte at member
  split at member
  · rename_i kept
    obtain rfl := List.mem_singleton.mp member
    rcases kept with alnum | rfl | rfl | rfl | rfl
    · exact .inl alnum
    all_goals exact .inr (by decide)
  · split at member
    · obtain rfl := List.mem_singleton.mp member
      exact .inr (by decide)
    · obtain ⟨high, low, highLt, lowLt, isHigh, isLow, -⟩ := nibbles c
      rw [isHigh, isLow] at member
      simp only [List.mem_cons, List.not_mem_nil, or_false] at member
      rcases member with rfl | rfl | rfl
      · exact .inr (by decide)
      · exact .inl (isAlnum_toHex highLt)
      · exact .inl (isAlnum_toHex lowLt)

/-- **URL coding.** Decoding inverts encoding, an encoded string is made of URL
characters, and decoding succeeds where every percent sign starts an escape and
leaves the string as it was elsewhere. -/
theorem urlCoding (s : Bytes) :
    urlDecodeRef (urlEncode s) = (true, s) ∧ (∀ c ∈ urlEncode s, IsUrlCharacter c) ∧
      ((urlDecodeRef s).1 = true ↔ PercentsEscape s) ∧
      ((urlDecodeRef s).1 = false → (urlDecodeRef s).2 = s) := by
  refine ⟨?_, ?_, ?_, ?_⟩
  · rw [urlDecodeRef_eq, urlDecode_urlEncode]
    rfl
  · intro c member
    rw [urlEncode_eq_flatMap] at member
    obtain ⟨_, _, member⟩ := List.mem_flatMap.mp member
    exact isUrlCharacter_of_mem member
  · rw [urlDecodeRef_eq, urlDecode_isSome_iff]
  · rw [urlDecodeRef_eq]
    intro failed
    rw [Option.isSome_eq_false_iff, Option.isNone_iff_eq_none] at failed
    rw [failed, Option.getD_none]

end

end Ahttpd

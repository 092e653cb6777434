import Mathlib.Data.List.GetD
import Mathlib.Data.List.Induction
import Ahttpd.Bytes

/-!
# Addresses, domains and paths

`isValidIPAddress`, `isDomainMatch` and `isPathMatch`, which decide what
cookies go to which host and what handler gets which request. Every host
belongs to its own domain (`isDomainMatch_self`) and every path is below
itself (`isPathMatch_self`).
-/

namespace Ahttpd

/-- `s[i]`. At `s.size()` it is a NUL; a read beyond, which only the empty path
of `isPathMatch` makes, is taken to be one too. -/
def charAt (s : Bytes) (i : Nat) : Byte := s.getD i 0

/-- The loop over an address that has a colon: the characters of the segment,
the number of colons, and whether an empty segment has been seen. -/
def ipv6Scan (sCount segCount : Nat) (compressFlag : Bool) : Bytes → Bool
  | [] =>
      if sCount = 0 ∧ compressFlag then false
      else segCount < 8
  | c :: addr =>
      if c = byte ':' then
        if sCount = 0 then
          if compressFlag then false
          else ipv6Scan 0 (segCount + 1) true addr
        else ipv6Scan 0 (segCount + 1) compressFlag addr
      else if !isXDigit c then false
      else if sCount + 1 > 4 then false
      else ipv6Scan (sCount + 1) segCount compressFlag addr

/-- The loop over an address without one: the segment so far, whose length is
`s_count`, and the number of dots. The conversion of a segment could throw. -/
def ipv4Scan (ipSeg : Bytes) (dotCount : Nat) : Bytes → Option Bool
  | [] => some (dotCount = 3 ∧ ipSeg ≠ [])
  | c :: addr =>
      if c = byte '.' then
        if ipSeg = [] then some false
        else do
          let value ← lexicalCastUnsigned (2 ^ 64) ipSeg
          if value > 255 then return false
          ipv4Scan [] (dotCount + 1) addr
      else if !isDigit c then some false
      else if ipSeg.length + 1 > 3 then some false
      else ipv4Scan (ipSeg ++ [c]) dotCount addr

/-- `isValidIPAddress`. The conversion never throws (`ipv4Scan_isSome`). -/
def isValidIPAddress (addr : Bytes) : Bool :=
  if byte ':' ∈ addr then ipv6Scan 0 0 false addr
  else if byte '.' ∈ addr then (ipv4Scan [] 0 addr).getD false
  else false

def isDomainMatch (url base : Bytes) : Bool :=
  let base := if charAt base 0 = byte '.' then base.drop 1 else base
  if base.length > url.length then false
  else if !strcasecmp base (url.drop (url.length - base.length)) then false
  else if base.length = url.length then true
  -- an IP address has to match as a whole
  else if isValidIPAddress url then false
  else charAt url (url.length - base.length - 1) == byte '.'

def isPathMatch (path base : Bytes) : Bool :=
  if base = [] then true
  else if base = str "/" ∧ charAt path 0 = byte '/' then true
  else
    let base :=
      if base.length > 1 ∧ charAt base (base.length - 1) = byte '/' then
        base.take (base.length - 1)
      else base
    let path :=
      if path ≠ str "/" ∧ charAt path (path.length - 1) = byte '/' then
        path.take (path.length - 1)
      else path
    if base.length > path.length then false
    else if base ≠ path.take base.length then false
    else if base.length = path.length then true
    else charAt path base.length == byte '/'

/-! ## Reading at the ends -/

theorem charAt_append_length (s t : Bytes) : charAt (s ++ t) s.length = t.headD 0 := by
  unfold charAt
  rw [List.getD_append_right _ _ _ _ (Nat.le_refl _), Nat.sub_self]
  cases t <;> rfl

theorem charAt_last (s : Bytes) (c : Byte) : charAt (s ++ [c]) ((s ++ [c]).length - 1) = c := by
  rw [List.length_append, List.length_singleton, Nat.add_sub_cancel]
  exact charAt_append_length s [c]

theorem take_last (s : Bytes) (c : Byte) : (s ++ [c]).take ((s ++ [c]).length - 1) = s := by
  rw [List.length_append, List.length_singleton, Nat.add_sub_cancel, List.take_left' rfl]

/-! ## The address recogniser -/

/-- A segment that the loop may hold. -/
def IsSegment (ipSeg : Bytes) : Prop := ipSeg.length ≤ 3 ∧ ipSeg.all isDigit = true

theorem digitVal_lt_of_isDigit {c : Byte} (digit : isDigit c = true) : digitVal c < 10 := by
  unfold digitVal
  rw [if_pos digit]
  simp only [isDigit, Bool.and_eq_true, decide_eq_true_eq] at digit
  have upper : c.toNat ≤ 57 := UInt8.le_iff_toNat_le.mp digit.2
  omega

theorem valueOf_lt {digits : Bytes} (areDigits : digits.all isDigit = true) :
    valueOf 10 digits < 10 ^ digits.length := by
  induction digits using List.reverseRecOn with
  | nil => exact Nat.one_pos
  | append_singleton digits c ih =>
      rw [List.all_append, Bool.and_eq_true] at areDigits
      rcases areDigits with ⟨digits', digit⟩
      have last : digitVal c < 10 := digitVal_lt_of_isDigit (by simpa using digit)
      have step : valueOf 10 (digits ++ [c]) = valueOf 10 digits * 10 + digitVal c := by
        rw [valueOf, List.foldl_append]
        rfl
      rw [step, List.length_append, List.length_singleton, Nat.pow_succ]
      have := ih digits'
      omega

theorem takeSign_of_digits {digits : Bytes} (areDigits : digits.all isDigit = true) :
    takeSign digits = (false, digits) := by
  cases digits with
  | nil => rfl
  | cons c rest =>
      have digit : isDigit c = true := (List.all_eq_true.mp areDigits) c List.mem_cons_self
      apply takeSign_of_digit
      · intro same
        exact absurd (same ▸ digit) (by decide)
      · intro same
        exact absurd (same ▸ digit) (by decide)

/-- The conversion of a segment never throws. -/
theorem lexicalCast_of_isSegment {ipSeg : Bytes} (segment : IsSegment ipSeg)
    (nonempty : ipSeg ≠ []) :
    lexicalCastUnsigned (2 ^ 64) ipSeg = some (valueOf 10 ipSeg) := by
  have small : valueOf 10 ipSeg < 2 ^ 64 := by
    calc valueOf 10 ipSeg < 10 ^ ipSeg.length := valueOf_lt segment.2
      _ ≤ 10 ^ 3 := Nat.pow_le_pow_right (by omega) segment.1
      _ < 2 ^ 64 := by decide
  simp only [lexicalCastUnsigned, takeSign_of_digits segment.2]
  exact if_pos ⟨nonempty, segment.2, small⟩

theorem ipv4Scan_isSome {ipSeg : Bytes} (segment : IsSegment ipSeg) (dotCount : Nat)
    (addr : Bytes) : (ipv4Scan ipSeg dotCount addr).isSome = true := by
  induction addr generalizing ipSeg dotCount with
  | nil => rfl
  | cons c addr ih =>
      rw [ipv4Scan]
      split
      · split
        · rfl
        · rename_i nonempty
          rw [lexicalCast_of_isSegment segment nonempty]
          simp only [Option.bind_eq_bind, Option.bind_some]
          split
          · rfl
          · exact ih ⟨by simp, rfl⟩ _
      · split
        · rfl
        · rename_i digit
          split
          · rfl
          · rename_i short
            refine ih ⟨?_, ?_⟩ _
            · simp only [List.length_append, List.length_singleton]
              omega
            · simpa [segment.2] using digit

/-- An address does not start with a dot. -/
theorem isValidIPAddress_of_dot (rest : Bytes) : isValidIPAddress (byte '.' :: rest) = false := by
  unfold isValidIPAddress
  split
  · rfl
  · simp [ipv4Scan]

/-! ## Domains and paths match themselves -/

theorem strcasecmp_self (s : Bytes) : strcasecmp s s = true := by
  simp [strcasecmp]

/-- **Own domain.** A host belongs to the domain of its own name. -/
theorem isDomainMatch_self (host : Bytes) : isDomainMatch host host = true := by
  unfold isDomainMatch
  by_cases dotted : charAt host 0 = byte '.'
  · cases host with
    | nil => exact absurd dotted (by decide)
    | cons c rest =>
        obtain rfl : c = byte '.' := dotted
        simpa [charAt, strcasecmp_self] using isValidIPAddress_of_dot rest
  · rw [if_neg dotted]
    simp [strcasecmp_self]

/-- **Own path.** A path is below itself. -/
theorem isPathMatch_self (path : Bytes) : isPathMatch path path = true := by
  unfold isPathMatch
  split
  · rfl
  · rename_i nonempty
    split
    · rfl
    · rename_i other
      -- the trailing slash is stripped from both or from none
      have alike : (path.length > 1 ∧ charAt path (path.length - 1) = byte '/') ↔
          (path ≠ str "/" ∧ charAt path (path.length - 1) = byte '/') := by
        match path, nonempty with
        | [c], _ =>
            have notRoot : ¬([c] = str "/" ∧ charAt [c] 0 = byte '/') := other
            constructor
            · intro long
              exact absurd long.1 (by simp)
            · intro root
              have same : c = byte '/' := root.2
              exact absurd ⟨by rw [same]; rfl, root.2⟩ notRoot
        | c :: d :: rest, _ => simp [str]
      simp only [alike]
      simp

end Ahttpd

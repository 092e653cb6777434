import Ahttpd.Basis.Delimited
import Ahttpd.Matching

/-!
# Addresses

What the two loops of `isValidIPAddress` accept, said about the pieces between
the separators. A loop that has read part of a piece accepts what it would
accept of the whole piece (`ipv4Scan_eq_true_iff`, `ipv6Scan_eq_true_iff`).

* The IPv4 loop checks a field when it meets the dot behind it, so nothing
  bounds the last one (`ipv4Recognised_iff`).
* The IPv6 loop allows one empty group wherever it stands, and none is needed
  for a short list of groups (`ipv6Recognised_iff`).
-/

namespace Ahttpd

/-! ## Splitting off what has been read -/

section Split

variable {α : Type*} [DecidableEq α] {i : α} {word : List α}

/-- A piece that is still being read. -/
theorem splitOn_word_append (absent : i ∉ word) (t : List α) :
    ∃ last pieces, t.splitOn i = last :: pieces ∧
      (word ++ t).splitOn i = (word ++ last) :: pieces := by
  induction word with
  | nil =>
      obtain ⟨last, pieces, isSplit⟩ := List.exists_cons_of_ne_nil (List.splitOn_ne_nil i t)
      exact ⟨last, pieces, isSplit, isSplit⟩
  | cons c word ih =>
      rcases not_or.mp (List.mem_cons.not.mp absent) with ⟨differs, later⟩
      obtain ⟨last, pieces, isSplit, isSplit'⟩ := ih later
      refine ⟨last, pieces, isSplit, ?_⟩
      rw [List.cons_append, List.splitOn_cons_eq_if_modifyHead, isSplit',
        if_neg (by simpa using Ne.symm differs)]
      rfl

end Split

/-! ## IPv4 -/

section Ipv4

/-- One to three decimal digits. -/
def IsField (s : Bytes) : Prop := s ≠ [] ∧ IsSegment s

/-- Four fields between dots, none above 255. -/
def DottedQuad (addr : Bytes) : Prop :=
  ∃ fields : List Bytes, fields.length = 4 ∧ (∀ s ∈ fields, IsField s ∧ valueOf 10 s ≤ 255) ∧
    addr = [byte '.'].intercalate fields

/-- Four fields between dots, of which only the last is above 255. -/
def OversizedLast (addr : Bytes) : Prop :=
  ∃ fields last, fields.length = 3 ∧ (∀ s ∈ fields, IsField s ∧ valueOf 10 s ≤ 255) ∧
    IsField last ∧ 255 < valueOf 10 last ∧ addr = [byte '.'].intercalate (fields ++ [last])

/-- The fields that the loop accepts after `dotCount` dots. -/
def AcceptsFields (dotCount : Nat) (fields : List Bytes) : Prop :=
  dotCount + fields.length = 4 ∧ (∀ s ∈ fields, IsField s) ∧
    ∀ s ∈ fields.dropLast, valueOf 10 s ≤ 255

/-- What the recogniser should do with one string: tell whether it is a dotted
quad, and have no conversion throw. -/
def Ipv4Recognised (addr : Bytes) : Prop :=
  (isValidIPAddress addr = true ↔ DottedQuad addr) ∧ (ipv4Scan [] 0 addr).isSome = true

variable {addr ipSeg s : Bytes} {fields : List Bytes} {dotCount : Nat}

theorem isSegment_nil : IsSegment [] := ⟨Nat.zero_le 3, rfl⟩

theorem acceptsFields_cons (nonempty : fields ≠ []) : AcceptsFields dotCount (s :: fields) ↔
    IsField s ∧ valueOf 10 s ≤ 255 ∧ AcceptsFields (dotCount + 1) fields := by
  unfold AcceptsFields
  rw [List.dropLast_cons_of_ne_nil nonempty, List.forall_mem_cons, List.forall_mem_cons,
    List.length_cons]
  constructor
  · rintro ⟨count, ⟨isField, areFields⟩, small, areSmall⟩
    exact ⟨isField, small, by omega, areFields, areSmall⟩
  · rintro ⟨isField, small, count, areFields, areSmall⟩
    exact ⟨by omega, ⟨isField, areFields⟩, small, areSmall⟩

/-- What cannot be the beginning of a field is not accepted. -/
theorem not_acceptsFields_of_isPrefix (absent : byte '.' ∉ s)
    (bad : ∀ rest, ¬IsSegment (s ++ rest)) (addr : Bytes) :
    ¬AcceptsFields dotCount ((s ++ addr).splitOn (byte '.')) := by
  obtain ⟨last, pieces, -, isSplit⟩ := splitOn_word_append absent addr
  rw [isSplit]
  rintro ⟨-, areFields, -⟩
  exact bad last (areFields _ List.mem_cons_self).2

/-- The loop with part of a field read. -/
theorem ipv4Scan_eq_true_iff (segment : IsSegment ipSeg) :
    ipv4Scan ipSeg dotCount addr = some true ↔
      AcceptsFields dotCount ((ipSeg ++ addr).splitOn (byte '.')) := by
  induction addr generalizing ipSeg dotCount with
  | nil =>
      have noDot : byte '.' ∉ ipSeg := not_mem_of_all segment.2 rfl
      rw [List.append_nil, List.splitOn_eq_singleton noDot, ipv4Scan, AcceptsFields,
        List.forall_mem_singleton, List.dropLast_singleton, List.length_singleton,
        Option.some.injEq, decide_eq_true_eq]
      constructor
      · rintro ⟨count, nonempty⟩
        exact ⟨by omega, ⟨nonempty, segment⟩, List.forall_mem_nil _⟩
      · rintro ⟨count, isField, -⟩
        exact ⟨by omega, isField.1⟩
  | cons c addr ih =>
      have refused : ¬some false = some true := fun same =>
        Bool.false_ne_true (Option.some_inj.mp same)
      have noDot : byte '.' ∉ ipSeg := not_mem_of_all segment.2 rfl
      rw [ipv4Scan]
      split
      · rename_i dot
        rw [dot, List.splitOn_append_cons_self_of_not_mem noDot,
          acceptsFields_cons (List.splitOn_ne_nil _ _)]
        split
        · rename_i empty
          exact iff_of_false refused fun accepts => accepts.1.1 empty
        · rename_i nonempty
          rw [lexicalCast_of_isSegment segment nonempty]
          simp only [Option.bind_eq_bind, Option.bind_some]
          split
          · rename_i large
            refine iff_of_false refused fun accepts => ?_
            exact absurd accepts.2.1 (Nat.not_le_of_gt large)
          · rename_i small
            rw [ih isSegment_nil, List.nil_append]
            exact ⟨fun accepts => ⟨⟨nonempty, segment⟩, Nat.le_of_not_gt small, accepts⟩,
              fun accepts => accepts.2.2⟩
      · rename_i notDot
        have joined : ipSeg ++ c :: addr = (ipSeg ++ [c]) ++ addr := by simp
        have noDot' : byte '.' ∉ ipSeg ++ [c] :=
          List.not_mem_append noDot (List.mem_singleton.not.mpr (Ne.symm notDot))
        rw [joined]
        split
        · rename_i other
          refine iff_of_false refused (not_acceptsFields_of_isPrefix noDot' ?_ addr)
          intro rest whole
          have digit := List.all_eq_true.mp whole.2 c (by simp)
          rw [digit] at other
          cases other
        · rename_i digit
          split
          · rename_i long
            refine iff_of_false refused (not_acceptsFields_of_isPrefix noDot' ?_ addr)
            intro rest whole
            have short := whole.1
            simp only [List.length_append, List.length_singleton] at short
            omega
          · rename_i short
            refine ih ⟨?_, ?_⟩
            · simp only [List.length_append, List.length_singleton]
              omega
            · simpa [segment.2] using digit

theorem isValidIPAddress_iff_fields (noColon : byte ':' ∉ addr) :
    isValidIPAddress addr = true ↔ AcceptsFields 0 (addr.splitOn (byte '.')) := by
  rw [isValidIPAddress, if_neg noColon]
  split
  · have scanned : ipv4Scan [] 0 addr = some true ↔ AcceptsFields 0 (addr.splitOn (byte '.')) :=
      ipv4Scan_eq_true_iff isSegment_nil
    rw [← scanned]
    cases ipv4Scan [] 0 addr with
    | none => exact iff_of_false Bool.false_ne_true (by nofun)
    | some accepts => rw [Option.getD_some, Option.some.injEq]
  · rename_i noDot
    rw [List.splitOn_eq_singleton noDot]
    refine iff_of_false Bool.false_ne_true fun accepts => ?_
    have count : 0 + 1 = 4 := accepts.1
    omega

theorem splitOn_fields (nonempty : fields ≠ []) (areFields : ∀ s ∈ fields, IsField s) :
    ([byte '.'].intercalate fields).splitOn (byte '.') = fields :=
  List.splitOn_intercalate _ (fun s member => not_mem_of_all (areFields s member).2.2 rfl)
    nonempty

theorem dottedQuad_iff : DottedQuad addr ↔ (addr.splitOn (byte '.')).length = 4 ∧
    ∀ s ∈ addr.splitOn (byte '.'), IsField s ∧ valueOf 10 s ≤ 255 := by
  constructor
  · rintro ⟨fields, four, areFields, rfl⟩
    have nonempty : fields ≠ [] := List.ne_nil_of_length_eq_add_one four
    rw [splitOn_fields nonempty fun s member => (areFields s member).1]
    exact ⟨four, areFields⟩
  · rintro ⟨four, areFields⟩
    exact ⟨_, four, areFields, (List.intercalate_splitOn _).symm⟩

theorem OversizedLast.not_dottedQuad (oversized : OversizedLast addr) : ¬DottedQuad addr := by
  obtain ⟨fields, last, -, areFields, isField, large, rfl⟩ := oversized
  rw [dottedQuad_iff, splitOn_fields (by simp)]
  · rintro ⟨-, small⟩
    have := (small last (List.mem_append_right _ List.mem_cons_self)).2
    omega
  · intro s member
    rcases List.mem_append.mp member with before | now
    · exact (areFields s before).1
    · rw [List.mem_singleton.mp now]
      exact isField

/-- The last field is not compared. -/
theorem isValidIPAddress_iff_or (noColon : byte ':' ∉ addr) :
    isValidIPAddress addr = true ↔ DottedQuad addr ∨ OversizedLast addr := by
  rw [isValidIPAddress_iff_fields noColon]
  constructor
  · rintro ⟨four, areFields, small⟩
    obtain ⟨fields, last, isSplit⟩ : ∃ fields last, addr.splitOn (byte '.') = fields ++ [last] :=
      ⟨_, _, (List.dropLast_concat_getLast (List.splitOn_ne_nil (byte '.') addr)).symm⟩
    have isAddr : [byte '.'].intercalate (addr.splitOn (byte '.')) = addr :=
      List.intercalate_splitOn (byte '.')
    rw [Nat.zero_add] at four
    rw [isSplit] at four areFields small isAddr
    rw [List.dropLast_concat] at small
    by_cases large : 255 < valueOf 10 last
    · refine .inr ⟨fields, last, by simpa using four, ?_, ?_, large, isAddr.symm⟩
      · intro s member
        exact ⟨areFields s (List.mem_append_left _ member), small s member⟩
      · exact areFields last (List.mem_append_right _ List.mem_cons_self)
    · refine .inl ⟨_, four, ?_, isAddr.symm⟩
      intro s member
      refine ⟨areFields s member, ?_⟩
      rcases List.mem_append.mp member with before | now
      · exact small s before
      · rw [List.mem_singleton.mp now]
        exact Nat.le_of_not_gt large
  · rintro (quad | ⟨fields, last, three, areFields, isField, -, rfl⟩)
    · rcases dottedQuad_iff.mp quad with ⟨four, areFields⟩
      exact ⟨by omega, fun s member => (areFields s member).1,
        fun s member => (areFields s (List.dropLast_subset _ member)).2⟩
    · have all : ∀ s ∈ fields ++ [last], IsField s := by
        intro s member
        rcases List.mem_append.mp member with before | now
        · exact (areFields s before).1
        · rw [List.mem_singleton.mp now]
          exact isField
      rw [splitOn_fields (by simp) all]
      refine ⟨by simp [three], all, ?_⟩
      rw [List.dropLast_concat]
      exact fun s member => (areFields s member).2

/-- **IPv4 recogniser.** It is right about the strings without a colon, except
that it takes four fields of which only the last is too large. -/
theorem ipv4Recognised_iff (noColon : byte ':' ∉ addr) :
    Ipv4Recognised addr ↔ ¬OversizedLast addr := by
  rw [Ipv4Recognised, isValidIPAddress_iff_or noColon,
    and_iff_left (ipv4Scan_isSome isSegment_nil 0 addr)]
  constructor
  · intro isExact oversized
    exact oversized.not_dottedQuad (isExact.mp (.inr oversized))
  · intro notOversized
    exact or_iff_left notOversized

/-- Dotted quads are taken. -/
theorem DottedQuad.taken (quad : DottedQuad addr) : isValidIPAddress addr = true := by
  have noColon : byte ':' ∉ addr := by
    obtain ⟨fields, -, areFields, rfl⟩ := quad
    intro colon
    obtain ⟨s, member, isDot | inside⟩ := Basis.mem_intercalate colon
    · exact absurd isDot (by decide)
    · exact not_mem_of_all (areFields s member).1.2.2 rfl inside
  exact (isValidIPAddress_iff_or noColon).mpr (.inl quad)

theorem ipv4Recognised_iff_loopback :
    Ipv4Recognised (str "127.0.0.1") ↔ ¬OversizedLast (str "127.0.0.1") :=
  ipv4Recognised_iff (by decide)

theorem ipv4Recognised_fails :
    byte ':' ∉ str "1.2.3.999" ∧ ¬Ipv4Recognised (str "1.2.3.999") := by
  refine ⟨by decide, fun recognised => ?_⟩
  have quad := dottedQuad_iff.mp (recognised.1.mp (by decide))
  exact absurd (quad.2 (str "999") (by decide)).2 (by decide)

end Ipv4

/-! ## IPv6 -/

section Ipv6

/-- One to four hexadecimal digits. -/
def IsGroup (g : Bytes) : Prop := g ≠ [] ∧ g.length ≤ 4 ∧ g.all isXDigit = true

/-- An address in hexadecimal groups: eight of them, or fewer with one `::`. -/
inductive ValidIpv6 : Bytes → Prop
  | full {groups : List Bytes} : groups.length = 8 → (∀ g ∈ groups, IsGroup g) →
      ValidIpv6 ([byte ':'].intercalate groups)
  | compressed {before after : List Bytes} : before.length + after.length < 8 →
      (∀ g ∈ before, IsGroup g) → (∀ g ∈ after, IsGroup g) →
      ValidIpv6 ([byte ':'].intercalate before ++ str "::" ++ [byte ':'].intercalate after)

/-- What the recogniser should do with one string: take the addresses, but
neither fewer than eight groups without an empty one nor more than eight groups
that are not empty. -/
def Ipv6Recognised (addr : Bytes) : Prop :=
  (ValidIpv6 addr → isValidIPAddress addr = true) ∧
    (∀ groups : List Bytes, groups.length < 8 → (∀ g ∈ groups, g ≠ [] ∧ g.all isXDigit = true) →
      addr = [byte ':'].intercalate groups → isValidIPAddress addr = false) ∧
    (8 < ((addr.splitOn (byte ':')).filter (· ≠ [])).length → isValidIPAddress addr = false)

/-- Two to seven groups without an empty one. -/
def ShortList (addr : Bytes) : Prop :=
  ∃ groups : List Bytes, 2 ≤ groups.length ∧ groups.length < 8 ∧ (∀ g ∈ groups, IsGroup g) ∧
    addr = [byte ':'].intercalate groups

/-- The groups that the loop accepts after `segCount` colons. -/
def AcceptsGroups (segCount : Nat) (compressFlag : Bool) (groups : List Bytes) : Prop :=
  (∀ g ∈ groups, g.length ≤ 4 ∧ g.all isXDigit = true) ∧
    compressFlag.toNat + groups.count [] ≤ 1 ∧ segCount + groups.length ≤ 8

variable {addr g : Bytes} {groups before after : List Bytes} {segCount : Nat} {compressFlag : Bool}

theorem acceptsGroups_nil : AcceptsGroups segCount compressFlag [] ↔ segCount ≤ 8 := by
  unfold AcceptsGroups
  cases compressFlag <;> simp

/-- One empty group is accepted, and it sets the flag. -/
theorem acceptsGroups_cons : AcceptsGroups segCount compressFlag (g :: groups) ↔
    (g.length ≤ 4 ∧ g.all isXDigit = true) ∧ ¬(g = [] ∧ compressFlag = true) ∧
      AcceptsGroups (segCount + 1) (compressFlag || decide (g = [])) groups := by
  unfold AcceptsGroups
  rw [List.forall_mem_cons, List.count_cons, List.length_cons]
  have count : segCount + (groups.length + 1) = segCount + 1 + groups.length := by omega
  rw [count]
  by_cases empty : g = []
  · subst empty
    cases compressFlag
    · simp [Nat.add_comm]
    · simp
  · simp [empty, and_assoc]

theorem not_acceptsGroups_of_isPrefix (absent : byte ':' ∉ g)
    (bad : ∀ rest, ¬((g ++ rest).length ≤ 4 ∧ (g ++ rest).all isXDigit = true)) (addr : Bytes) :
    ¬AcceptsGroups segCount compressFlag ((g ++ addr).splitOn (byte ':')) := by
  obtain ⟨last, pieces, -, isSplit⟩ := splitOn_word_append absent addr
  rw [isSplit]
  rintro ⟨areGroups, -, -⟩
  exact bad last (areGroups _ List.mem_cons_self)

/-- The loop with part of a group read. -/
theorem ipv6Scan_eq_true_iff (short : g.length ≤ 4) (digits : g.all isXDigit = true) :
    ipv6Scan g.length segCount compressFlag addr = true ↔
      AcceptsGroups segCount compressFlag ((g ++ addr).splitOn (byte ':')) := by
  induction addr generalizing g segCount compressFlag with
  | nil =>
      have noColon : byte ':' ∉ g := not_mem_of_all digits rfl
      rw [List.append_nil, List.splitOn_eq_singleton noColon, ipv6Scan, acceptsGroups_cons,
        acceptsGroups_nil]
      simp only [List.length_eq_zero_iff]
      split
      · rename_i second
        exact iff_of_false Bool.false_ne_true fun accepts => accepts.2.1 second
      · rename_i first
        rw [decide_eq_true_eq]
        exact ⟨fun few => ⟨⟨short, digits⟩, first, few⟩, fun accepts => accepts.2.2⟩
  | cons c addr ih =>
      have noColon : byte ':' ∉ g := not_mem_of_all digits rfl
      rw [ipv6Scan]
      split
      · rename_i colon
        have start := @ih [] (segCount + 1) (compressFlag || decide (g = [])) (Nat.zero_le 4) rfl
        rw [List.nil_append, List.length_nil] at start
        rw [colon, List.splitOn_append_cons_self_of_not_mem noColon, acceptsGroups_cons, ← start,
          and_iff_right ⟨short, digits⟩]
        simp only [List.length_eq_zero_iff]
        by_cases empty : g = []
        · rw [if_pos empty]
          cases compressFlag <;> simp [empty]
        · simp [empty]
      · rename_i notColon
        have joined : g ++ c :: addr = (g ++ [c]) ++ addr := by simp
        have noColon' : byte ':' ∉ g ++ [c] :=
          List.not_mem_append noColon (List.mem_singleton.not.mpr (Ne.symm notColon))
        rw [joined]
        split
        · rename_i other
          refine iff_of_false Bool.false_ne_true (not_acceptsGroups_of_isPrefix noColon' ?_ addr)
          rintro rest ⟨-, whole⟩
          rw [List.all_eq_true.mp whole c (by simp)] at other
          cases other
        · rename_i digit
          split
          · rename_i long
            refine iff_of_false Bool.false_ne_true (not_acceptsGroups_of_isPrefix noColon' ?_ addr)
            rintro rest ⟨whole, -⟩
            simp only [List.length_append, List.length_singleton] at whole
            omega
          · rename_i room
            have length : g.length + 1 = (g ++ [c]).length := by simp
            rw [length]
            refine ih ?_ ?_
            · rw [← length]
              exact Nat.le_of_not_gt room
            · simpa [digits] using digit

theorem isValidIPAddress_iff_groups (colon : byte ':' ∈ addr) :
    isValidIPAddress addr = true ↔ AcceptsGroups 0 false (addr.splitOn (byte ':')) := by
  have noGroup : ([] : Bytes).length ≤ 4 := Nat.zero_le 4
  rw [isValidIPAddress, if_pos colon]
  exact ipv6Scan_eq_true_iff noGroup rfl

theorem splitOn_groups (nonempty : groups ≠ []) (digits : ∀ g ∈ groups, g.all isXDigit = true) :
    ([byte ':'].intercalate groups).splitOn (byte ':') = groups :=
  List.splitOn_intercalate _ (fun g member => not_mem_of_all (digits g member) rfl) nonempty

/-- A colon stands in a text with more than one group. -/
theorem colon_mem_iff : byte ':' ∈ addr ↔ 1 < (addr.splitOn (byte ':')).length := by
  constructor
  · intro colon
    obtain ⟨first, rest, rfl⟩ := List.append_of_mem colon
    have positive := List.length_pos_iff.mpr (List.splitOn_ne_nil (byte ':') first)
    have positive' := List.length_pos_iff.mpr (List.splitOn_ne_nil (byte ':') rest)
    rw [List.splitOn_append_cons_self, List.length_append]
    omega
  · intro several
    by_contra noColon
    rw [List.splitOn_eq_singleton noColon, List.length_singleton] at several
    omega

/-- Hexadecimal groups without an empty one: the loop counts them, and wants two
to eight. -/
theorem isValidIPAddress_of_groups (filled : ∀ g ∈ groups, g ≠ [] ∧ g.all isXDigit = true) :
    isValidIPAddress ([byte ':'].intercalate groups) = true ↔
      2 ≤ groups.length ∧ groups.length ≤ 8 ∧ ∀ g ∈ groups, g.length ≤ 4 := by
  by_cases none : groups = []
  · subst none
    exact iff_of_false (by decide) (by simp)
  · have isSplit := splitOn_groups none fun g member => (filled g member).2
    by_cases several : 2 ≤ groups.length
    · have colon : byte ':' ∈ [byte ':'].intercalate groups := by
        rw [colon_mem_iff, isSplit]
        exact several
      have noEmpty : groups.count [] = 0 :=
        List.count_eq_zero.mpr fun member => (filled [] member).1 rfl
      rw [isValidIPAddress_iff_groups colon, isSplit, AcceptsGroups, noEmpty]
      constructor
      · rintro ⟨areGroups, -, few⟩
        exact ⟨several, by omega, fun g member => (areGroups g member).1⟩
      · rintro ⟨-, few, short⟩
        exact ⟨fun g member => ⟨short g member, (filled g member).2⟩, by decide, by omega⟩
    · refine iff_of_false ?_ fun accepts => several accepts.1
      have positive := List.length_pos_iff.mpr none
      obtain ⟨g, rfl⟩ : ∃ g, groups = [g] := List.length_eq_one_iff.mp (by omega)
      have digits := (filled g List.mem_cons_self).2
      rw [List.intercalate_singleton, isValidIPAddress, if_neg (not_mem_of_all digits rfl),
        if_neg (not_mem_of_all digits rfl)]
      exact Bool.false_ne_true

theorem splitOn_colon (t : Bytes) :
    (byte ':' :: t).splitOn (byte ':') = [] :: t.splitOn (byte ':') := by
  rw [List.splitOn_cons_eq_if_modifyHead, if_pos (beq_self_eq_true _)]

/-- Two colons at an end make two empty groups. -/
theorem isValidIPAddress_of_colons (ends : str "::" <+: addr ∨ str "::" <:+ addr) :
    isValidIPAddress addr = false := by
  have colons : str "::" = [byte ':', byte ':'] := rfl
  have twice : byte ':' ∈ addr ∧ 2 ≤ (addr.splitOn (byte ':')).count [] := by
    rw [colons] at ends
    rcases ends with ⟨rest, rfl⟩ | ⟨rest, rfl⟩
    · refine ⟨by simp, ?_⟩
      rw [List.cons_append, List.singleton_append, splitOn_colon, splitOn_colon,
        List.count_cons_self, List.count_cons_self]
      omega
    · refine ⟨by simp, ?_⟩
      rw [List.splitOn_append_cons_self, splitOn_colon, List.splitOn_nil, List.count_append,
        List.count_cons_self, List.count_cons_self]
      omega
  rw [← Bool.not_eq_true, isValidIPAddress_iff_groups twice.1]
  rintro ⟨-, one, -⟩
  rw [Bool.toNat_false, Nat.zero_add] at one
  omega

/-- With groups on both sides, two colons make one empty group. -/
theorem isValidIPAddress_of_compressed (filled : before ≠ []) (filled' : after ≠ [])
    (few : before.length + after.length < 8) (areGroups : ∀ g ∈ before, IsGroup g)
    (areGroups' : ∀ g ∈ after, IsGroup g) : isValidIPAddress
      ([byte ':'].intercalate before ++ str "::" ++ [byte ':'].intercalate after) = true := by
  have colons : [byte ':'].intercalate before ++ str "::" ++ [byte ':'].intercalate after =
      [byte ':'].intercalate before ++ byte ':' :: byte ':' :: [byte ':'].intercalate after := by
    simp [str]
  have isSplit : ([byte ':'].intercalate before ++ byte ':' :: byte ':' ::
      [byte ':'].intercalate after).splitOn (byte ':') = before ++ [] :: after := by
    rw [List.splitOn_append_cons_self, splitOn_colon,
      splitOn_groups filled fun g member => (areGroups g member).2.2,
      splitOn_groups filled' fun g member => (areGroups' g member).2.2]
  have noEmpty : before.count [] = 0 :=
    List.count_eq_zero.mpr fun member => (areGroups [] member).1 rfl
  have noEmpty' : after.count [] = 0 :=
    List.count_eq_zero.mpr fun member => (areGroups' [] member).1 rfl
  rw [colons, isValidIPAddress_iff_groups (by simp), isSplit]
  refine ⟨?_, ?_, ?_⟩
  · intro g member
    rcases List.mem_append.mp member with left | right
    · exact (areGroups g left).2
    · rcases List.mem_cons.mp right with rfl | right
      · exact ⟨Nat.zero_le 4, rfl⟩
      · exact (areGroups' g right).2
  · rw [List.count_append, List.count_cons_self, noEmpty, noEmpty']
    decide
  · rw [List.length_append, List.length_cons]
    omega

/-- Outside the two kinds of strings, addresses are taken. -/
theorem ValidIpv6.taken (valid : ValidIpv6 addr)
    (ends : ¬(str "::" <+: addr ∨ str "::" <:+ addr)) : isValidIPAddress addr = true := by
  cases valid with
  | @full groups eight areGroups =>
      refine (isValidIPAddress_of_groups fun g member => ?_).mpr ⟨by omega, by omega, ?_⟩
      · exact ⟨(areGroups g member).1, (areGroups g member).2.2⟩
      · exact fun g member => (areGroups g member).2.1
  | @compressed before after few areGroups areGroups' =>
      refine isValidIPAddress_of_compressed ?_ ?_ few areGroups areGroups'
      · rintro rfl
        exact ends (.inl ⟨_, rfl⟩)
      · rintro rfl
        refine ends (.inr ⟨[byte ':'].intercalate before, ?_⟩)
        rw [List.intercalate_nil, List.append_nil]

theorem isValidIPAddress_of_more
    (more : 8 < ((addr.splitOn (byte ':')).filter (· ≠ [])).length) :
    isValidIPAddress addr = false := by
  have most := List.length_filter_le (· ≠ []) (addr.splitOn (byte ':'))
  rw [← Bool.not_eq_true, isValidIPAddress_iff_groups (colon_mem_iff.mpr (by omega))]
  rintro ⟨-, -, few⟩
  omega

/-- **IPv6 recogniser.** It is right about all strings but two kinds: it does
not take the addresses that begin or end with two colons, and it takes lists of
two to seven groups. -/
theorem ipv6Recognised_iff (addr : Bytes) : Ipv6Recognised addr ↔
    ¬(ValidIpv6 addr ∧ (str "::" <+: addr ∨ str "::" <:+ addr)) ∧ ¬ShortList addr := by
  constructor
  · rintro ⟨takes, refuses, -⟩
    refine ⟨?_, ?_⟩
    · rintro ⟨valid, ends⟩
      have taken := takes valid
      rw [isValidIPAddress_of_colons ends] at taken
      cases taken
    · rintro ⟨groups, several, few, areGroups, rfl⟩
      have filled : ∀ g ∈ groups, g ≠ [] ∧ g.all isXDigit = true :=
        fun g member => ⟨(areGroups g member).1, (areGroups g member).2.2⟩
      have taken := (isValidIPAddress_of_groups filled).mpr
        ⟨several, by omega, fun g member => (areGroups g member).2.1⟩
      rw [refuses groups few filled rfl] at taken
      cases taken
  · rintro ⟨inside, notShort⟩
    refine ⟨?_, ?_, isValidIPAddress_of_more⟩
    · intro valid
      exact valid.taken fun ends => inside ⟨valid, ends⟩
    · rintro groups few filled rfl
      rw [← Bool.not_eq_true, isValidIPAddress_of_groups filled]
      rintro ⟨several, -, short⟩
      refine notShort ⟨groups, several, few, ?_, rfl⟩
      exact fun g member => ⟨(filled g member).1, short g member, (filled g member).2⟩

/-- The loopback address is not taken. -/
theorem ipv6Recognised_fails : ¬Ipv6Recognised (str "::1") := by
  rintro ⟨takes, -⟩
  have one : IsGroup (str "1") := ⟨by decide, by decide, by decide⟩
  have valid : ValidIpv6 (str "::1") :=
    @ValidIpv6.compressed [] [str "1"] (by decide) (List.forall_mem_nil _)
      (List.forall_mem_singleton.mpr one)
  exact absurd (takes valid) (by decide)

end Ipv6

end Ahttpd

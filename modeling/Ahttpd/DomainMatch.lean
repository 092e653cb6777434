import Ahttpd.IpAddress

/-!
# Domain matching

`isDomainMatch` compares the end of the host with the domain, byte for byte up
to case, and looks at the one byte in front. On names made of labels this
compares the lists of labels (`isDomainMatch_iff_suffix`): a host is in a domain
when it has the labels of the domain, or ends with them and is not an address.
-/

namespace Ahttpd

open Basis

/-- Labels that are not empty and free of dots and NULs, at least one. -/
def IsDomainName (labels : List Bytes) : Prop :=
  labels ≠ [] ∧ ∀ l ∈ labels, l ≠ [] ∧ byte '.' ∉ l ∧ (0 : Byte) ∉ l

/-- The text of a name. -/
def nameOf (labels : List Bytes) : Bytes := [byte '.'].intercalate labels

/-- Labels without the difference of case. -/
def foldCase (labels : List Bytes) : List Bytes := labels.map (·.map toLower)

section

variable {host base : Bytes} {labels labels' : List Bytes} {c : Byte}

/-! ## Comparing bytes -/

theorem strcasecmp_iff {s t : Bytes} (clean : (0 : Byte) ∉ s) (clean' : (0 : Byte) ∉ t) :
    strcasecmp s t = true ↔ s.map toLower = t.map toLower := by
  unfold strcasecmp cStr
  rw [takeWhile_ne_eq_self clean, takeWhile_ne_eq_self clean', beq_iff_eq]

/-- What `isDomainMatch` does once the leading dot is gone. -/
def matchTail (host base : Bytes) : Bool :=
  if base.length > host.length then false
  else if !strcasecmp base (host.drop (host.length - base.length)) then false
  else if base.length = host.length then true
  else if isValidIPAddress host then false
  else charAt host (host.length - base.length - 1) == byte '.'

theorem isDomainMatch_dot : isDomainMatch host (byte '.' :: base) = matchTail host base := rfl

theorem isDomainMatch_of_head (noDot : charAt base 0 ≠ byte '.') :
    isDomainMatch host base = matchTail host base := by
  unfold isDomainMatch
  rw [if_neg noDot]
  rfl

theorem eq_of_suffix {s t front : Bytes} (suffix : s <:+ front ++ t)
    (length : s.length = t.length) : s = t :=
  (List.suffix_of_suffix_length_le suffix (List.suffix_append front t)
    (Nat.le_of_eq length)).eq_of_length length

/-- The byte in front of the end. -/
theorem dot_suffix_iff {front tail : Bytes} (same : base.map toLower = tail.map toLower) :
    byte '.' :: base.map toLower <:+ (front ++ c :: tail).map toLower ↔ c = byte '.' := by
  rw [same, List.map_append, List.map_cons]
  constructor
  · intro suffix
    have equal := eq_of_suffix suffix (by rw [List.length_cons, List.length_cons])
    exact (toLower_eq_iff (by decide)).mp (List.cons.inj equal).1.symm
  · rintro rfl
    exact List.suffix_append _ _

/-- The comparison of the source: equal, or a dot and then the domain at the end
of a host that is no address. -/
theorem matchTail_iff (clean : (0 : Byte) ∉ host) (clean' : (0 : Byte) ∉ base) :
    matchTail host base = true ↔ base.map toLower = host.map toLower ∨
      isValidIPAddress host = false ∧ byte '.' :: base.map toLower <:+ host.map toLower := by
  unfold matchTail
  split
  · rename_i long
    refine iff_of_false Bool.false_ne_true ?_
    rintro (same | ⟨-, suffix⟩)
    · have := congrArg List.length same
      simp only [List.length_map] at this
      omega
    · have := suffix.length_le
      simp only [List.length_map, List.length_cons] at this
      omega
  · rename_i short
    obtain ⟨front, tail, rfl, length⟩ : ∃ front tail, host = front ++ tail ∧
        tail.length = base.length :=
      ⟨host.take (host.length - base.length), host.drop (host.length - base.length),
        (List.take_append_drop _ _).symm, by rw [List.length_drop]; omega⟩
    have before : (front ++ tail).length - base.length = front.length := by
      rw [List.length_append, length, Nat.add_sub_cancel]
    have tailClean : (0 : Byte) ∉ tail := fun member => clean (List.mem_append_right _ member)
    rw [before, List.drop_left]
    by_cases same : base.map toLower = tail.map toLower
    · rw [(strcasecmp_iff clean' tailClean).mpr same, Bool.not_true, if_neg Bool.false_ne_true]
      cases front using List.reverseRecOn with
      | nil => exact iff_of_true (if_pos length.symm) (.inl same)
      | append_singleton front d =>
          have longer : base.length ≠ (front ++ [d] ++ tail).length := by
            simp only [List.length_append, List.length_singleton]
            omega
          have joined : front ++ [d] ++ tail = front ++ d :: tail := by simp
          have differs : base.map toLower ≠ (front ++ [d] ++ tail).map toLower := by
            intro equal
            have lengths := congrArg List.length equal
            rw [List.length_map, List.length_map] at lengths
            exact longer lengths
          rw [if_neg longer, or_iff_right differs, joined, List.length_append,
            List.length_singleton, Nat.add_sub_cancel, charAt_append_length, List.headD_cons,
            dot_suffix_iff same]
          cases isValidIPAddress (front ++ d :: tail) <;> simp
    · have other : strcasecmp base tail = false := by
        rw [← Bool.not_eq_true, strcasecmp_iff clean' tailClean]
        exact same
      have inTail (suffix : base.map toLower <:+ (front ++ tail).map toLower) :
          base.map toLower = tail.map toLower := by
        rw [List.map_append] at suffix
        exact eq_of_suffix suffix (by rw [List.length_map, List.length_map, length])
      rw [other]
      refine iff_of_false Bool.false_ne_true ?_
      rintro (whole | ⟨-, suffix⟩)
      · exact same (inTail (whole ▸ List.suffix_rfl))
      · exact same (inTail ((List.suffix_cons _ _).trans suffix))

/-! ## Comparing labels -/

theorem dot_nameOf (isName : IsDomainName labels) :
    byte '.' :: nameOf labels = behind (byte '.') labels := cons_intercalate isName.1

theorem map_behind (labels : List Bytes) :
    (behind (byte '.') labels).map toLower = behind (byte '.') (foldCase labels) := by
  induction labels with
  | nil => rfl
  | cons l labels ih =>
      rw [behind_cons, List.map_cons, List.map_append, ih]
      rfl

/-- A name without the difference of case, behind a dot. -/
theorem dot_map_nameOf (isName : IsDomainName labels) :
    byte '.' :: (nameOf labels).map toLower = behind (byte '.') (foldCase labels) := by
  rw [← map_behind, ← dot_nameOf isName]
  rfl

theorem foldCase_clean (isName : IsDomainName labels) : ∀ l ∈ foldCase labels, byte '.' ∉ l := by
  intro l member dot
  obtain ⟨l, isLabel, rfl⟩ := List.mem_map.mp member
  obtain ⟨c, inside, isDot⟩ := List.mem_map.mp dot
  rw [(toLower_eq_iff (by decide)).mp isDot] at inside
  exact (isName.2 l isLabel).2.1 inside

theorem nameOf_clean (isName : IsDomainName labels) : (0 : Byte) ∉ nameOf labels := by
  intro member
  obtain ⟨l, isLabel, isDot | inside⟩ := mem_intercalate member
  · exact absurd isDot (by decide)
  · exact (isName.2 l isLabel).2.2 inside

/-- A name does not begin with a dot. -/
theorem charAt_nameOf (isName : IsDomainName labels) : charAt (nameOf labels) 0 ≠ byte '.' := by
  have shown := dot_nameOf isName
  cases labels with
  | nil => exact absurd rfl isName.1
  | cons l labels =>
      obtain ⟨filled, noDot, -⟩ := isName.2 l List.mem_cons_self
      rw [(List.cons.inj shown).2]
      cases l with
      | nil => exact absurd rfl filled
      | cons c l =>
          intro dot
          obtain rfl : c = byte '.' := dot
          exact noDot List.mem_cons_self

theorem map_nameOf_eq_iff (isName : IsDomainName labels) (isName' : IsDomainName labels') :
    (nameOf labels').map toLower = (nameOf labels).map toLower ↔
      foldCase labels' = foldCase labels := by
  rw [← behind_inj (foldCase_clean isName') (foldCase_clean isName), ← dot_map_nameOf isName,
    ← dot_map_nameOf isName', List.cons.injEq, and_iff_right rfl]

/-- Behind a dot stand fewer labels. -/
theorem dot_map_nameOf_suffix_iff (isName : IsDomainName labels) (isName' : IsDomainName labels') :
    byte '.' :: (nameOf labels').map toLower <:+ (nameOf labels).map toLower ↔
      foldCase labels' <:+ foldCase labels ∧ foldCase labels' ≠ foldCase labels := by
  rw [← behind_suffix_iff (foldCase_clean isName) (foldCase_clean isName'), Ne,
    ← map_nameOf_eq_iff isName isName', ← dot_map_nameOf isName, ← dot_map_nameOf isName',
    List.suffix_cons_iff]
  constructor
  · intro suffix
    refine ⟨.inr suffix, fun same => ?_⟩
    have lengths := suffix.length_le
    rw [same, List.length_cons] at lengths
    omega
  · rintro ⟨same | suffix, differs⟩
    · exact absurd (List.cons.inj same).2 differs
    · exact suffix

theorem isDomainMatch_nameOf (isName' : IsDomainName labels')
    (isBase : base = nameOf labels' ∨ base = byte '.' :: nameOf labels') (host : Bytes) :
    isDomainMatch host base = matchTail host (nameOf labels') := by
  rcases isBase with rfl | rfl
  · exact isDomainMatch_of_head (charAt_nameOf isName')
  · exact isDomainMatch_dot

/-- **Domain matching** compares labels: a host matches a domain when it has its
labels, or ends with them, has others in front and is no address. An address
has to have all of them. -/
theorem isDomainMatch_iff_suffix (isName : IsDomainName labels) (isName' : IsDomainName labels')
    (isBase : base = nameOf labels' ∨ base = byte '.' :: nameOf labels') :
    (isDomainMatch (nameOf labels) base = true ↔ foldCase labels' = foldCase labels ∨
      isValidIPAddress (nameOf labels) = false ∧ foldCase labels' <:+ foldCase labels ∧
        foldCase labels' ≠ foldCase labels) ∧
    (DottedQuad (nameOf labels) →
      (isDomainMatch (nameOf labels) base = true ↔ foldCase labels' = foldCase labels)) := by
  have compared : isDomainMatch (nameOf labels) base = true ↔ foldCase labels' = foldCase labels ∨
      isValidIPAddress (nameOf labels) = false ∧ foldCase labels' <:+ foldCase labels ∧
        foldCase labels' ≠ foldCase labels := by
    rw [isDomainMatch_nameOf isName' isBase, matchTail_iff (nameOf_clean isName)
      (nameOf_clean isName'), map_nameOf_eq_iff isName isName',
      dot_map_nameOf_suffix_iff isName isName']
  refine ⟨compared, fun quad => ?_⟩
  rw [compared, quad.taken]
  exact or_iff_left fun address => absurd address.1 (by decide)

/-- A host in the domain above it, in another case and behind a dot. -/
theorem isDomainMatch_iff_suffix_above :
    isDomainMatch (nameOf [str "a", str "b"]) (byte '.' :: nameOf [str "B"]) = true := by
  have isName : IsDomainName [str "a", str "b"] := by
    refine ⟨List.cons_ne_nil _ _, List.forall_mem_cons.mpr ⟨?_, List.forall_mem_singleton.mpr ?_⟩⟩
    · exact ⟨by decide, by decide, by decide⟩
    · exact ⟨by decide, by decide, by decide⟩
  have isName' : IsDomainName [str "B"] :=
    ⟨List.cons_ne_nil _ _, List.forall_mem_singleton.mpr ⟨by decide, by decide, by decide⟩⟩
  apply (isDomainMatch_iff_suffix isName isName' (.inr rfl)).1.mpr
  exact .inr ⟨by decide, ⟨[str "a"], rfl⟩, by decide⟩

end

end Ahttpd

import Ahttpd.Basis.Delimited
import Ahttpd.Matching

/-!
# Path matching

`isPathMatch` strips a slash from the end of either side and then compares
bytes. On paths made of segments this is the comparison of the segment lists
(`isPathMatch_iff_prefix`). Whatever a path and the base it matches are made
of, the base is a prefix of the path with a slash behind it
(`prefix_of_isPathMatch`), so that bases of one length are one base.
-/

namespace Ahttpd

open Basis

/-- What is left of the base. -/
def trimBase (base : Bytes) : Bytes :=
  if base.length > 1 ∧ charAt base (base.length - 1) = byte '/' then base.take (base.length - 1)
  else base

/-- What is left of the path. -/
def trimPath (path : Bytes) : Bytes :=
  if path ≠ str "/" ∧ charAt path (path.length - 1) = byte '/' then path.take (path.length - 1)
  else path

/-- `/` shows no segments, and `/s1/…/sn` with a slash behind it or without one
shows those between the slashes. -/
inductive ShowsPath : List Bytes → Bytes → Prop
  | root : ShowsPath [] (str "/")
  | plain {segments} : segments ≠ [] → (∀ s ∈ segments, s ≠ [] ∧ byte '/' ∉ s) →
      ShowsPath segments (behind (byte '/') segments)
  | slash {segments} : segments ≠ [] → (∀ s ∈ segments, s ≠ [] ∧ byte '/' ∉ s) →
      ShowsPath segments (behind (byte '/') segments ++ str "/")

section

variable {path base s : Bytes} {segments segments' : List Bytes}

/-- The comparison of the source: a prefix that ends where the text does or at a
slash. -/
theorem boundary_iff : (base.length ≤ path.length ∧ base = path.take base.length ∧
    (base.length = path.length ∨ charAt path base.length = byte '/')) ↔
    ∃ rest, path = base ++ rest ∧ AtDelimiter (byte '/') rest := by
  constructor
  · rintro ⟨-, isTake, ends⟩
    obtain ⟨rest, rfl⟩ := List.prefix_iff_eq_take.mpr isTake
    refine ⟨rest, rfl, ?_⟩
    rw [charAt_append_length, List.length_append] at ends
    cases rest with
    | nil => exact atDelimiter_nil
    | cons c rest =>
        rcases ends with same | slash
        · simp at same
        · exact atDelimiter_cons.mpr slash
  · rintro ⟨rest, rfl, ends⟩
    refine ⟨by simp, (List.take_left' rfl).symm, ?_⟩
    rw [charAt_append_length]
    cases rest with
    | nil => exact .inl (by rw [List.append_nil])
    | cons c rest => exact .inr (atDelimiter_cons.mp ends)

theorem isPathMatch_iff : isPathMatch path base = true ↔
    base = [] ∨ (base = str "/" ∧ charAt path 0 = byte '/') ∨
      ∃ rest, trimPath path = trimBase base ++ rest ∧ AtDelimiter (byte '/') rest := by
  rw [← boundary_iff]
  change (if base = [] then true else if base = str "/" ∧ charAt path 0 = byte '/' then true
    else if (trimBase base).length > (trimPath path).length then false
    else if trimBase base ≠ (trimPath path).take (trimBase base).length then false
    else if (trimBase base).length = (trimPath path).length then true
    else charAt (trimPath path) (trimBase base).length == byte '/') = true ↔ _
  split
  · simp [*]
  · split
    · simp [*]
    · rename_i nonempty notRoot
      simp only [nonempty, notRoot, false_or]
      split
      · rename_i long
        simp only [Bool.false_eq_true, false_iff]
        rintro ⟨short, -⟩
        omega
      · rename_i short
        split
        · rename_i differs
          simp only [Bool.false_eq_true, false_iff]
          rintro ⟨-, same, -⟩
          exact differs same
        · rename_i same
          split
          · rename_i equal
            exact iff_of_true rfl ⟨Nat.le_of_eq equal, not_not.mp same, .inl equal⟩
          · rename_i longer
            rw [beq_iff_eq]
            constructor
            · intro slash
              exact ⟨Nat.le_of_not_gt short, not_not.mp same, .inr slash⟩
            · rintro ⟨-, -, equal | slash⟩
              · exact absurd equal longer
              · exact slash

/-! ## Bases of a path -/

/-- What is stripped from an end is a slash. -/
theorem strip_cases {p : Prop} [Decidable p] {stripped : Bytes} (isStripped : stripped =
    if p ∧ charAt s (s.length - 1) = byte '/' then s.take (s.length - 1) else s) :
    stripped = s ∨ s = stripped ++ str "/" := by
  rw [isStripped]
  split
  · rename_i slash
    right
    cases s using List.reverseRecOn with
    | nil => exact absurd slash.2 (by decide)
    | append_singleton s c =>
        rw [charAt_last] at slash
        rw [take_last, slash.2]
        rfl
  · exact .inl rfl

theorem trimPath_append_isPrefix (path : Bytes) : trimPath path ++ str "/" <+: path ++ str "/" := by
  rcases strip_cases (rfl : trimPath path = _) with same | slash
  · rw [same]
  · rw [← slash]
    exact List.prefix_append _ _

theorem prefix_trimBase_append (base : Bytes) : base <+: trimBase base ++ str "/" := by
  rcases strip_cases (rfl : trimBase base = _) with same | slash
  · rw [same]
    exact List.prefix_append _ _
  · rw [← slash]

/-- **Bases are prefixes.** A base that a path matches is a prefix of the path
with a slash behind it. -/
theorem prefix_of_isPathMatch (isMatch : isPathMatch path base = true) :
    base <+: path ++ str "/" := by
  rcases isPathMatch_iff.mp isMatch with rfl | ⟨rfl, slash⟩ | ⟨rest, split, ends⟩
  · exact List.nil_prefix
  · cases path with
    | nil => exact List.prefix_rfl
    | cons c path =>
        obtain rfl : c = byte '/' := slash
        exact List.prefix_append [byte '/'] _
  · have upToSlash : trimBase base ++ str "/" <+: trimPath path ++ str "/" := by
      rw [split]
      cases rest with
      | nil => rw [List.append_nil]
      | cons c rest =>
          rw [atDelimiter_cons.mp ends]
          exact ⟨rest ++ str "/", by simp [str]⟩
    exact (prefix_trimBase_append base).trans (upToSlash.trans (trimPath_append_isPrefix path))

/-- **One base of a length.** Bases of one length that a path matches are the same. -/
theorem eq_of_isPathMatch {base' : Bytes} (isMatch : isPathMatch path base = true)
    (isMatch' : isPathMatch path base' = true) (length : base.length = base'.length) :
    base = base' := by
  have shorter := List.prefix_of_prefix_length_le (prefix_of_isPathMatch isMatch)
    (prefix_of_isPathMatch isMatch') (Nat.le_of_eq length)
  exact shorter.eq_of_length length

/-! ## Paths made of segments -/

/-- Segments do not end in a slash. -/
theorem exists_last (nonempty : segments ≠ []) (clean : ∀ s ∈ segments, s ≠ [] ∧ byte '/' ∉ s) :
    ∃ front c, front ≠ [] ∧ c ≠ byte '/' ∧ behind (byte '/') segments = front ++ [c] := by
  cases segments using List.reverseRecOn with
  | nil => exact absurd rfl nonempty
  | append_singleton segments s =>
      rcases clean s (List.mem_append_right _ List.mem_cons_self) with ⟨filled, absent⟩
      cases s using List.reverseRecOn with
      | nil => exact absurd rfl filled
      | append_singleton s c =>
          refine ⟨behind (byte '/') segments ++ byte '/' :: s, c, by simp, ?_, ?_⟩
          · rintro rfl
            exact absent (List.mem_append_right _ List.mem_cons_self)
          · simp [behind_append]

/-- Stripping leaves paths of segments alone and takes the slash behind them. -/
theorem trim_of_segments (nonempty : segments ≠ [])
    (clean : ∀ s ∈ segments, s ≠ [] ∧ byte '/' ∉ s) :
    (trimBase (behind (byte '/') segments) = behind (byte '/') segments ∧
      trimBase (behind (byte '/') segments ++ str "/") = behind (byte '/') segments) ∧
    (trimPath (behind (byte '/') segments) = behind (byte '/') segments ∧
      trimPath (behind (byte '/') segments ++ str "/") = behind (byte '/') segments) := by
  obtain ⟨front, c, -, notSlash, isLast⟩ := exists_last nonempty clean
  have slash : str "/" = [byte '/'] := rfl
  rw [isLast, slash]
  refine ⟨⟨?_, ?_⟩, ?_, ?_⟩
  · rw [trimBase, if_neg]
    rintro ⟨-, isSlash⟩
    rw [charAt_last] at isSlash
    exact notSlash isSlash
  · rw [trimBase, if_pos, take_last]
    exact ⟨by simp, charAt_last _ _⟩
  · rw [trimPath, if_neg]
    rintro ⟨-, isSlash⟩
    rw [charAt_last] at isSlash
    exact notSlash isSlash
  · rw [trimPath, if_pos, take_last]
    refine ⟨?_, charAt_last _ _⟩
    intro isRoot
    have lengths := congrArg List.length isRoot
    simp [str] at lengths

theorem ShowsPath.trimBase_eq (shows' : ShowsPath segments base) (nonempty : segments ≠ []) :
    trimBase base = behind (byte '/') segments := by
  cases shows' with
  | root => exact absurd rfl nonempty
  | plain _ clean => exact (trim_of_segments nonempty clean).1.1
  | slash _ clean => exact (trim_of_segments nonempty clean).1.2

theorem ShowsPath.trimPath_eq (shows' : ShowsPath segments path) (nonempty : segments ≠ []) :
    trimPath path = behind (byte '/') segments := by
  cases shows' with
  | root => exact absurd rfl nonempty
  | plain _ clean => exact (trim_of_segments nonempty clean).2.1
  | slash _ clean => exact (trim_of_segments nonempty clean).2.2

theorem ShowsPath.clean (shows' : ShowsPath segments path) :
    ∀ s ∈ segments, s ≠ [] ∧ byte '/' ∉ s := by
  cases shows' with
  | root => nofun
  | plain _ clean => exact clean
  | slash _ clean => exact clean

theorem ShowsPath.head (shows' : ShowsPath segments path) : charAt path 0 = byte '/' := by
  cases shows' with
  | root => rfl
  | plain nonempty _ =>
      cases segments with
      | nil => exact absurd rfl nonempty
      | cons s segments => rfl
  | slash nonempty _ =>
      cases segments with
      | nil => exact absurd rfl nonempty
      | cons s segments => rfl

/-- **Path matching** compares the segments: a path matches a base when the
segments of the base come first in it. -/
theorem isPathMatch_iff_prefix (showsPath : ShowsPath segments path)
    (showsBase : ShowsPath segments' base) :
    isPathMatch path base = true ↔ segments' <+: segments := by
  by_cases atRoot : segments' = []
  · subst atRoot
    refine iff_of_true ?_ List.nil_prefix
    cases showsBase with
    | root => exact isPathMatch_iff.mpr (.inr (.inl ⟨rfl, showsPath.head⟩))
    | plain nonempty => exact absurd rfl nonempty
    | slash nonempty => exact absurd rfl nonempty
  · have isBase := showsBase.trimBase_eq atRoot
    have long : 1 < (behind (byte '/') segments').length := by
      obtain ⟨front, c, filled, -, isLast⟩ := exists_last atRoot showsBase.clean
      have := List.length_pos_iff.mpr filled
      rw [isLast, List.length_append, List.length_singleton]
      omega
    have notEmpty : base ≠ [] := by
      rintro rfl
      exact absurd showsBase.head (by decide)
    have notRoot : base ≠ str "/" := by
      rintro rfl
      rw [← isBase] at long
      exact absurd long (by decide)
    rw [isPathMatch_iff, isBase]
    simp only [notEmpty, notRoot, false_and, false_or]
    by_cases pathAtRoot : segments = []
    · subst pathAtRoot
      refine iff_of_false ?_ fun none => atRoot (List.prefix_nil.mp none)
      rintro ⟨rest, split, -⟩
      cases showsPath with
      | root =>
          have lengths := congrArg List.length split
          rw [List.length_append] at lengths
          have : (trimPath (str "/")).length = 1 := rfl
          omega
      | plain nonempty => exact nonempty rfl
      | slash nonempty => exact nonempty rfl
    · rw [showsPath.trimPath_eq pathAtRoot]
      exact behind_prefix_iff (fun s member => (showsPath.clean s member).2)
        (fun s member => (showsBase.clean s member).2)

/-- `/a/b/` matches `/a`. -/
theorem isPathMatch_iff_prefix_nested :
    isPathMatch (str "/a/b/") (str "/a") = true ↔ [str "a"] <+: [str "a", str "b"] :=
  isPathMatch_iff_prefix
    (.slash (List.cons_ne_nil _ _) (List.forall_mem_cons.mpr ⟨⟨by decide, by decide⟩,
      List.forall_mem_singleton.mpr ⟨by decide, by decide⟩⟩))
    (.plain (List.cons_ne_nil _ _) (List.forall_mem_singleton.mpr ⟨by decide, by decide⟩))

end

end Ahttpd

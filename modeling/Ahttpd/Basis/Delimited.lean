import Mathlib.Data.List.Infix

/-!
# Words behind delimiters

`behind i words` shows every word behind a delimiter, as the segments of a path
or, with a delimiter put in front, the labels of a name. When the words are free
of the delimiter, the text decides them, so that comparing texts is comparing
lists: a text is a prefix up to a delimiter of another (`behind_prefix_iff`), or
a suffix of it (`behind_suffix_iff`), as the lists of words are.
-/

namespace Basis

variable {α : Type*}

/-- Words that each stand behind a delimiter. -/
def behind (i : α) (words : List (List α)) : List α := words.flatMap (i :: ·)

/-- Nothing, or a text that starts with a delimiter. -/
def AtDelimiter (i : α) (t : List α) : Prop := ∀ c ∈ t.head?, c = i

section Delimited

variable {i : α} {word word' t t' : List α} {words words' : List (List α)}

@[simp] theorem behind_nil : behind i [] = [] := rfl

@[simp] theorem behind_cons : behind i (word :: words) = i :: (word ++ behind i words) := rfl

theorem behind_append : behind i (words ++ words') = behind i words ++ behind i words' :=
  List.flatMap_append

theorem behind_eq_nil_iff : behind i words = [] ↔ words = [] := by
  cases words with
  | nil => exact iff_of_true rfl rfl
  | cons word words => exact iff_of_false (List.cons_ne_nil _ _) (List.cons_ne_nil _ _)

theorem atDelimiter_nil : AtDelimiter i ([] : List α) := nofun

theorem atDelimiter_cons {c : α} : AtDelimiter i (c :: t) ↔ c = i := by
  constructor
  · intro at'
    exact at' c rfl
  · rintro rfl d isHead
    exact (Option.some.inj isHead).symm

theorem atDelimiter_behind : AtDelimiter i (behind i words) := by
  cases words with
  | nil => exact atDelimiter_nil
  | cons word words => exact atDelimiter_cons.mpr rfl

theorem AtDelimiter.append (first : AtDelimiter i t) (second : AtDelimiter i t') :
    AtDelimiter i (t ++ t') := by
  cases t with
  | nil => exact second
  | cons c t => exact atDelimiter_cons.mpr (atDelimiter_cons.mp first)

/-- A word ends where the text meets a delimiter, and only there. -/
theorem AtDelimiter.word_unique (absent : i ∉ word) (absent' : i ∉ word') (ends : AtDelimiter i t)
    (ends' : AtDelimiter i t') (same : word ++ t = word' ++ t') : word = word' ∧ t = t' := by
  induction word generalizing word' with
  | nil =>
      cases word' with
      | nil => exact ⟨rfl, same⟩
      | cons c word' =>
          obtain rfl : t = c :: (word' ++ t') := same
          obtain rfl := atDelimiter_cons.mp ends
          exact absurd List.mem_cons_self absent'
  | cons c word ih =>
      rcases not_or.mp (List.mem_cons.not.mp absent) with ⟨differs, absent⟩
      cases word' with
      | nil =>
          obtain rfl : c :: (word ++ t) = t' := same
          exact absurd (atDelimiter_cons.mp ends').symm differs
      | cons c' word' =>
          rcases not_or.mp (List.mem_cons.not.mp absent') with ⟨-, later'⟩
          rcases List.cons.inj same with ⟨rfl, sameLater⟩
          rcases ih absent later' sameLater with ⟨rfl, rest⟩
          exact ⟨rfl, rest⟩

/-- **Prefixes.** A text starts with another, up to a delimiter, when the words
of the other come first in it. -/
theorem behind_prefix_iff (clean : ∀ word ∈ words, i ∉ word) (clean' : ∀ word ∈ words', i ∉ word) :
    (∃ rest, behind i words = behind i words' ++ rest ∧ AtDelimiter i rest) ↔ words' <+: words := by
  constructor
  · rintro ⟨rest, same, ends⟩
    induction words' generalizing words with
    | nil => exact List.nil_prefix
    | cons word' words' ih =>
        cases words with
        | nil => cases same
        | cons word words =>
            rcases List.forall_mem_cons.mp clean with ⟨absent, others⟩
            rcases List.forall_mem_cons.mp clean' with ⟨absent', others'⟩
            simp only [behind_cons, List.cons_append, List.cons.injEq, true_and,
              List.append_assoc] at same
            rcases AtDelimiter.word_unique absent absent' atDelimiter_behind
              (atDelimiter_behind.append ends) same with ⟨rfl, later⟩
            exact List.cons_prefix_cons.mpr ⟨rfl, ih others others' later⟩
  · rintro ⟨later, rfl⟩
    exact ⟨behind i later, behind_append, atDelimiter_behind⟩

theorem behind_inj (clean : ∀ word ∈ words, i ∉ word) (clean' : ∀ word ∈ words', i ∉ word) :
    behind i words = behind i words' ↔ words = words' := by
  constructor
  · intro same
    have shorter := (behind_prefix_iff clean clean').mp
      ⟨[], by rw [same, List.append_nil], atDelimiter_nil⟩
    have longer := (behind_prefix_iff clean' clean).mp
      ⟨[], by rw [same, List.append_nil], atDelimiter_nil⟩
    exact longer.eq_of_length_le shorter.length_le
  · rintro rfl
    rfl

/-- What starts with a delimiter does not start inside a word. -/
theorem suffix_of_word_suffix (absent : i ∉ word) (ends : AtDelimiter i t')
    (suffix : t' <:+ word ++ t) : t' <:+ t := by
  obtain ⟨front, same⟩ := suffix
  rcases List.append_eq_append_iff.mp same with ⟨inWord, rfl, rfl⟩ | ⟨inText, rfl, rfl⟩
  · cases inWord with
    | nil => exact List.suffix_rfl
    | cons c inWord =>
        obtain rfl := atDelimiter_cons.mp ends
        exact absurd (List.mem_append_right _ List.mem_cons_self) absent
  · exact List.suffix_append _ _

/-- **Suffixes.** A text ends with another when the words of the other come last
in it. -/
theorem behind_suffix_iff (clean : ∀ word ∈ words, i ∉ word) (clean' : ∀ word ∈ words', i ∉ word) :
    behind i words' <:+ behind i words ↔ words' <:+ words := by
  constructor
  · intro suffix
    induction words with
    | nil =>
        rw [behind_nil, List.suffix_nil, behind_eq_nil_iff] at suffix
        rw [suffix]
    | cons word words ih =>
        rcases List.forall_mem_cons.mp clean with ⟨absent, clean⟩
        rcases List.suffix_cons_iff.mp suffix with same | inside
        · rw [(behind_inj (List.forall_mem_cons.mpr ⟨absent, clean⟩) clean').mp same.symm]
        · have later := suffix_of_word_suffix absent atDelimiter_behind inside
          exact (ih clean later).trans (List.suffix_cons _ _)
  · rintro ⟨earlier, rfl⟩
    rw [behind_append]
    exact List.suffix_append _ _

/-- A list with delimiters between its words, seen from the delimiter in front. -/
theorem cons_intercalate (nonempty : words ≠ []) : i :: [i].intercalate words = behind i words := by
  induction words with
  | nil => exact absurd rfl nonempty
  | cons word words ih =>
      cases words with
      | nil => simp [List.intercalate]
      | cons word' words =>
          rw [behind_cons, ← ih (List.cons_ne_nil _ _)]
          simp [List.intercalate]

theorem mem_intercalate {c : α} (member : c ∈ [i].intercalate words) :
    ∃ word ∈ words, c = i ∨ c ∈ word := by
  have nonempty : words ≠ [] := by
    rintro rfl
    exact List.not_mem_nil member
  have inside : c ∈ behind i words := by
    rw [← cons_intercalate nonempty]
    exact List.mem_cons_of_mem _ member
  obtain ⟨word, isWord, inside⟩ := List.mem_flatMap.mp inside
  exact ⟨word, isWord, List.mem_cons.mp inside⟩

end Delimited

end Basis

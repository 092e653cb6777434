import Mathlib.Data.List.Basic

/-!
# Backtracking regular expressions

Perl-style matching: `Regex.run` lists the ways an expression can match a
prefix of the input, in the order a backtracking matcher tries them, each with
the rest of the input and the capture groups set on the way. The match is the
first entry of that list, so greedy repetition is repetition that lists the
longest way first. `Regex.search` tries the starts from left to right.

`head?_plus_seq` is the rule for a greedy run of a character class: it takes
the longest run after which the rest of the expression still matches.
-/

namespace Basis

/-- Regular expressions over a character type. -/
inductive Regex (α : Type*)
  | empty
  /-- One character of a class. -/
  | cls (p : α → Bool)
  | seq (first second : Regex α)
  | alt (first second : Regex α)
  /-- Greedy repetition. -/
  | star (body : Regex α)
  | group (index : Nat) (body : Regex α)
  /-- Negative lookahead. -/
  | notAhead (body : Regex α)

namespace Regex

variable {α : Type*}

/-- Capture groups, the one set last in front. -/
abbrev Captures (α : Type*) := List (Nat × List α)

/-- The text of a group; a group that was not set has none. -/
def Captures.str (captures : Captures α) (index : Nat) : List α :=
  ((captures.find? (·.1 == index)).map (·.2)).getD []

/-- The ways to repeat `body` at most `n` times, every time on a shorter
input. -/
def iterate (body : List α → Captures α → List (List α × Captures α)) :
    Nat → List α → Captures α → List (List α × Captures α)
  | 0, input, captures => [(input, captures)]
  | n + 1, input, captures =>
      ((body input captures).flatMap fun way =>
        if way.1.length < input.length then iterate body n way.1 way.2 else []) ++
        [(input, captures)]

/-- All ways to match a prefix of the input, in the order they are tried. -/
def run : Regex α → List α → Captures α → List (List α × Captures α)
  | .empty, input, captures => [(input, captures)]
  | .cls _, [], _ => []
  | .cls p, c :: input, captures => if p c then [(input, captures)] else []
  | .seq first second, input, captures =>
      (first.run input captures).flatMap fun way => second.run way.1 way.2
  | .alt first second, input, captures => first.run input captures ++ second.run input captures
  | .star body, input, captures => iterate body.run input.length input captures
  | .group index body, input, captures =>
      (body.run input captures).map fun way =>
        (way.1, (index, input.take (input.length - way.1.length)) :: way.2)
  | .notAhead body, input, captures =>
      if (body.run input captures).isEmpty then [(input, captures)] else []

/-- The leftmost match, preferring the way that is tried first. -/
def search (r : Regex α) : List α → Option (Captures α)
  | [] => (r.run [] []).head?.map (·.2)
  | c :: input =>
      match (r.run (c :: input) []).head? with
      | some way => some way.2
      | none => search r input

/-- One repetition or more. -/
def plus (r : Regex α) : Regex α := .seq r (.star r)

/-- One given character. -/
def char [BEq α] (c : α) : Regex α := .cls (· == c)

theorem run_seq (first second : Regex α) (input : List α) (captures : Captures α) :
    (seq first second).run input captures =
      (first.run input captures).flatMap fun way => second.run way.1 way.2 := rfl

theorem run_group (index : Nat) (body : Regex α) (input : List α) (captures : Captures α) :
    (group index body).run input captures = (body.run input captures).map fun way =>
      (way.1, (index, input.take (input.length - way.1.length)) :: way.2) := rfl

theorem run_cls_of_pos {p : α → Bool} {c : α} (holds : p c = true) (input : List α)
    (captures : Captures α) : (cls p).run (c :: input) captures = [(input, captures)] :=
  if_pos holds

theorem run_cls_of_neg {p : α → Bool} {c : α} (fails : p c = false) (input : List α)
    (captures : Captures α) : (cls p).run (c :: input) captures = [] :=
  if_neg (by rw [fails]; exact Bool.false_ne_true)

section Char

variable [BEq α] [LawfulBEq α] {c : α} {next : Regex α} {input : List α} {captures : Captures α}

theorem run_char_seq : (seq (char c) next).run (c :: input) captures = next.run input captures := by
  rw [run_seq, char, run_cls_of_pos (p := (· == c)) (beq_self_eq_true c), List.flatMap_singleton]

theorem exists_of_char_seq (fits : (seq (char c) next).run input captures ≠ []) :
    ∃ rest, input = c :: rest ∧ next.run rest captures ≠ [] := by
  rw [run_seq, char] at fits
  cases input with
  | nil => exact absurd rfl fits
  | cons d input =>
      by_cases same : (d == c) = true
      · rw [run_cls_of_pos (p := (· == c)) same, List.flatMap_singleton] at fits
        exact ⟨input, by rw [eq_of_beq same], fits⟩
      · rw [run_cls_of_neg (p := (· == c)) (Bool.not_eq_true _ ▸ same)] at fits
        exact absurd rfl fits

end Char

/-! ## Greedy runs of a class -/

/-- What a greedy run of a class can leave, the longest run first. -/
def leftovers (p : α → Bool) : List α → List (List α)
  | [] => [[]]
  | c :: input => if p c then leftovers p input ++ [c :: input] else [c :: input]

theorem run_star_cls (p : α → Bool) (input : List α) (captures : Captures α) :
    (star (cls p)).run input captures = (leftovers p input).map (·, captures) := by
  change iterate (cls p).run input.length input captures = _
  induction input with
  | nil => rfl
  | cons c input ih =>
      by_cases holds : p c = true
      · simp only [List.length_cons, iterate, run, holds, if_true, List.flatMap_singleton,
          Nat.lt_succ_self, ih, leftovers, List.map_append, List.map_cons, List.map_nil]
      · simp only [List.length_cons, iterate, run, holds, leftovers, if_false, List.flatMap_nil,
          List.nil_append, List.map_cons, List.map_nil, Bool.false_eq_true]

theorem mem_leftovers {p : α → Bool} {input rest : List α} (member : rest ∈ leftovers p input) :
    ∃ taken, input = taken ++ rest ∧ ∀ c ∈ taken, p c = true := by
  induction input with
  | nil =>
      obtain rfl := List.mem_singleton.mp member
      exact ⟨[], rfl, nofun⟩
  | cons c input ih =>
      unfold leftovers at member
      split at member
      · rename_i holds
        rcases List.mem_append.mp member with later | here
        · obtain ⟨taken, rfl, all⟩ := ih later
          exact ⟨c :: taken, rfl, List.forall_mem_cons.mpr ⟨holds, all⟩⟩
        · obtain rfl := List.mem_singleton.mp here
          exact ⟨[], rfl, nofun⟩
      · obtain rfl := List.mem_singleton.mp member
        exact ⟨[], rfl, nofun⟩

/-- Every run of the class is tried, after exactly the longer ones. -/
theorem leftovers_split {p : α → Bool} {taken : List α} (rest : List α)
    (all : ∀ c ∈ taken, p c = true) :
    ∃ longer shorter, leftovers p (taken ++ rest) = longer ++ rest :: shorter ∧
      ∀ rest' ∈ longer, ∃ more, more ≠ [] ∧ rest = more ++ rest' ∧ ∀ c ∈ more, p c = true := by
  induction taken with
  | nil =>
      cases rest with
      | nil => exact ⟨[], [], rfl, nofun⟩
      | cons c rest =>
          rw [List.nil_append]
          by_cases holds : p c = true
          · refine ⟨leftovers p rest, [], by simp only [leftovers, holds, if_true], ?_⟩
            intro rest' member
            obtain ⟨more, rfl, all⟩ := mem_leftovers member
            exact ⟨c :: more, nofun, rfl, List.forall_mem_cons.mpr ⟨holds, all⟩⟩
          · exact ⟨[], [], by simp only [leftovers, holds, if_false, List.nil_append,
              Bool.false_eq_true], nofun⟩
  | cons c taken ih =>
      rcases List.forall_mem_cons.mp all with ⟨holds, all⟩
      obtain ⟨longer, shorter, split, before⟩ := ih all
      refine ⟨longer, shorter ++ [c :: (taken ++ rest)], ?_, before⟩
      simp only [List.cons_append, leftovers, holds, if_true, split, List.append_assoc]

theorem head?_flatMap_of_first {β γ : Type*} {f : β → List γ} {before after : List β} {x : β}
    (none : ∀ y ∈ before, f y = []) (some : f x ≠ []) :
    ((before ++ x :: after).flatMap f).head? = (f x).head? := by
  have skipped : before.flatMap f = [] := List.flatMap_eq_nil_iff.mpr none
  rw [List.flatMap_append, skipped, List.nil_append, List.flatMap_cons,
    List.head?_append_of_ne_nil _ some]

/-- A captured part that can leave `rest`, after parts that leave less: if
`next` matches `rest` and none of what the earlier parts leave, the first match
is the one of `next` on `rest`. -/
theorem head?_group_seq {body next : Regex α} {index : Nat} {taken rest : List α}
    {captures : Captures α} (longer shorter : List (List α))
    (ways : body.run (taken ++ rest) captures = (longer ++ rest :: shorter).map (·, captures))
    (fits : next.run rest ((index, taken) :: captures) ≠ [])
    (longest : ∀ rest' ∈ longer, ∀ captures', next.run rest' captures' = []) :
    ((seq (group index body) next).run (taken ++ rest) captures).head? =
      (next.run rest ((index, taken) :: captures)).head? := by
  have text : (taken ++ rest).take ((taken ++ rest).length - rest.length) = taken := by
    rw [List.length_append, Nat.add_sub_cancel, List.take_left' rfl]
  rw [run_seq, run_group, ways, List.map_map, List.map_append, List.map_cons,
    head?_flatMap_of_first]
  · simp only [Function.comp_apply, text]
  · intro way member
    rcases List.mem_map.mp member with ⟨rest', isLonger, rfl⟩
    exact longest rest' isLonger _
  · simpa only [Function.comp_apply, text] using fits

/-- **Greedy repetition.** A captured run of a class that has to match at least
once, followed by `next`, takes the longest run after which `next` matches. -/
theorem head?_plus_seq {p : α → Bool} {index : Nat} {next : Regex α} {taken rest : List α}
    {captures : Captures α} (nonempty : taken ≠ []) (all : ∀ c ∈ taken, p c = true)
    (fits : next.run rest ((index, taken) :: captures) ≠ [])
    (longest : ∀ more rest', more ≠ [] → rest = more ++ rest' → (∀ c ∈ more, p c = true) →
      ∀ captures', next.run rest' captures' = []) :
    ((seq (group index (plus (cls p))) next).run (taken ++ rest) captures).head? =
      (next.run rest ((index, taken) :: captures)).head? := by
  cases taken with
  | nil => exact absurd rfl nonempty
  | cons c taken =>
      rcases List.forall_mem_cons.mp all with ⟨holds, all⟩
      obtain ⟨longer, shorter, split, before⟩ := leftovers_split rest all
      refine head?_group_seq longer shorter ?_ fits ?_
      · rw [List.cons_append, plus, run_seq, run_cls_of_pos holds, List.flatMap_singleton,
          run_star_cls, split]
      · intro rest' isLonger
        obtain ⟨more, nonempty, eq, all⟩ := before rest' isLonger
        exact longest more rest' nonempty eq all

/-- The same for a run that may be empty. -/
theorem head?_star_seq {p : α → Bool} {index : Nat} {next : Regex α} {taken rest : List α}
    {captures : Captures α} (all : ∀ c ∈ taken, p c = true)
    (fits : next.run rest ((index, taken) :: captures) ≠ [])
    (longest : ∀ more rest', more ≠ [] → rest = more ++ rest' → (∀ c ∈ more, p c = true) →
      ∀ captures', next.run rest' captures' = []) :
    ((seq (group index (star (cls p))) next).run (taken ++ rest) captures).head? =
      (next.run rest ((index, taken) :: captures)).head? := by
  obtain ⟨longer, shorter, split, before⟩ := leftovers_split rest all
  refine head?_group_seq longer shorter ?_ fits ?_
  · rw [run_star_cls, split]
  · intro rest' isLonger
    obtain ⟨more, nonempty, eq, all⟩ := before rest' isLonger
    exact longest more rest' nonempty eq all

/-- A captured run of a class in front of `next` leaves an input that `next`
matches. -/
theorem exists_of_star_seq {p : α → Bool} {index : Nat} {next : Regex α} {input : List α}
    {captures : Captures α}
    (fits : (seq (group index (star (cls p))) next).run input captures ≠ []) :
    ∃ taken rest captures', input = taken ++ rest ∧ (∀ c ∈ taken, p c = true) ∧
      next.run rest captures' ≠ [] := by
  rw [run_seq, run_group, run_star_cls] at fits
  obtain ⟨result, member⟩ := List.exists_mem_of_ne_nil _ fits
  rcases List.mem_flatMap.mp member with ⟨way, isWay, isResult⟩
  rcases List.mem_map.mp isWay with ⟨_, isStar, rfl⟩
  rcases List.mem_map.mp isStar with ⟨rest, isLeft, rfl⟩
  obtain ⟨taken, rfl, all⟩ := mem_leftovers isLeft
  exact ⟨taken, rest, _, rfl, all, List.ne_nil_of_mem isResult⟩

/-- Repeating a body that takes one character of a class and captures something
from it takes all it can. -/
theorem head?_star_of_single {body : Regex α} {p : α → Bool} {capture : α → Nat × List α}
    (single : ∀ c input captures, p c = true →
      body.run (c :: input) captures = [(input, capture c :: captures)])
    {taken rest : List α} (all : ∀ c ∈ taken, p c = true)
    (stops : ∀ captures, body.run rest captures = []) (captures : Captures α) :
    ((star body).run (taken ++ rest) captures).head? =
      some (rest, (taken.map capture).reverse ++ captures) := by
  have steps : ∀ n, taken.length ≤ n → (iterate body.run n (taken ++ rest) captures).head? =
      some (rest, (taken.map capture).reverse ++ captures) := by
    induction taken generalizing captures with
    | nil =>
        intro n _
        cases n <;> simp [iterate, stops]
    | cons c taken ih =>
        intro n enough
        rcases List.forall_mem_cons.mp all with ⟨holds, all⟩
        cases n with
        | zero => exact absurd enough (Nat.not_succ_le_zero _)
        | succ n =>
            have later := ih all (capture c :: captures) n (Nat.le_of_succ_le_succ enough)
            have shorter : (taken ++ rest).length < (c :: (taken ++ rest)).length :=
              Nat.lt_succ_self _
            rw [List.cons_append, iterate, single c _ _ holds, List.flatMap_singleton]
            dsimp only
            rw [if_pos shorter, List.head?_append, later, List.map_cons, List.reverse_cons,
              List.append_assoc]
            rfl
  exact steps _ (by rw [List.length_append]; exact Nat.le_add_right _ _)

/-- A run of a class that has come to a stop cannot have been longer. -/
theorem not_all_of_stop {p : α → Bool} {more rest : List α}
    (stops : ∀ c ∈ (more ++ rest).head?, p c = false) (nonempty : more ≠ []) :
    ¬∀ c ∈ more, p c = true := by
  intro all
  cases more with
  | nil => exact nonempty rfl
  | cons c more =>
      have stop : p c = false := stops c rfl
      rw [all c List.mem_cons_self] at stop
      cases stop

/-- A captured run of a class with nothing behind it takes all it can. -/
theorem head?_group_star {p : α → Bool} {index : Nat} {taken rest : List α}
    {captures : Captures α} (all : ∀ c ∈ taken, p c = true)
    (stops : ∀ c ∈ rest.head?, p c = false) :
    ((group index (star (cls p))).run (taken ++ rest) captures).head? =
      some (rest, (index, taken) :: captures) := by
  obtain ⟨longer, shorter, split, before⟩ := leftovers_split rest all
  have text : (taken ++ rest).take ((taken ++ rest).length - rest.length) = taken := by
    rw [List.length_append, Nat.add_sub_cancel, List.take_left' rfl]
  cases longer with
  | nil =>
      rw [run_group, run_star_cls, split]
      simp only [List.nil_append, List.map_cons, List.head?_cons, text]
  | cons rest' longer =>
      obtain ⟨more, nonempty, eq, all⟩ := before rest' List.mem_cons_self
      rw [eq] at stops
      exact absurd all (not_all_of_stop stops nonempty)

/-- A match at the first position is the leftmost one. -/
theorem search_of_head? {r : Regex α} {input : List α} {way : List α × Captures α}
    (first : (r.run input []).head? = some way) : r.search input = some way.2 := by
  cases input with
  | nil => rw [search, first, Option.map_some]
  | cons c input => rw [search, first]

end Regex

end Basis

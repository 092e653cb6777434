import Mathlib.Data.List.Basic

/-!
# Text that ends at a line with one dot

The data format of SMTP and of protocols like it: lines separated by CRLF, the
text ends at a line that is a single dot, and a dot at the start of any other
line is removed. `receive` is the reader. A text that is sent as it is, with
the terminator behind it, arrives as it is exactly when no line of it starts
with a dot (`receiveLines_terminated_iff`).
-/

namespace Basis

/-- The symbols of the format. -/
structure DotMarks (α : Type*) where
  cr : α
  lf : α
  dot : α
  distinct : cr ≠ lf

namespace DotMarks

variable {α : Type*} [DecidableEq α] (marks : DotMarks α)

/-- The lines of a text, the last of which no line end follows. -/
def lines : List α → List (List α)
  | [] => [[]]
  | [c] => [[c]]
  | c :: d :: text =>
      if c = marks.cr ∧ d = marks.lf then [] :: lines text
      else (lines (d :: text)).modifyHead (c :: ·)

/-- What is left of a line without the dot that may stand in front. -/
def unstuff : List α → List α
  | [] => []
  | c :: line => if c = marks.dot then line else c :: line

/-- The lines of the text and what comes after its end. The last line of the
input is still incomplete. -/
def receiveLines : List (List α) → Option (List (List α) × List (List α))
  | [] => none
  | [_] => none
  | line :: next :: later =>
      if line = [marks.dot] then some ([], next :: later)
      else (receiveLines (next :: later)).map fun (text, rest) => (marks.unstuff line :: text, rest)

/-- The reader, on all bytes that are sent. -/
def receive (input : List α) : Option (List (List α) × List (List α)) :=
  marks.receiveLines (marks.lines input)

def crlf : List α := [marks.cr, marks.lf]

/-- The text of complete lines. -/
def unlines (text : List (List α)) : List α := text.flatMap (· ++ marks.crlf)

/-- CRLF, a dot, CRLF. -/
def terminator : List α := marks.crlf ++ marks.dot :: marks.crlf

/-! ## Lines -/

theorem lines_ne_nil (text : List α) : marks.lines text ≠ [] := by
  fun_induction lines marks text with
  | case1 | case2 | case3 => simp
  | case4 c d text _ ih => simpa [List.modifyHead_eq_nil_iff] using ih

/-- A line end separates the lines in front of it from the lines behind it. -/
theorem lines_append (text more : List α) :
    marks.lines (text ++ marks.crlf ++ more) = marks.lines text ++ marks.lines more := by
  fun_induction lines marks text with
  | case1 => simp [crlf, lines]
  | case2 c =>
      have other : ¬(c = marks.cr ∧ marks.cr = marks.lf) := fun both => marks.distinct both.2
      simp [crlf, lines, other]
  | case3 c d text isEnd ih =>
      rcases isEnd with ⟨rfl, rfl⟩
      rw [List.cons_append, List.cons_append, List.cons_append, List.cons_append, lines,
        if_pos ⟨rfl, rfl⟩, ih, List.cons_append]
  | case4 c d text notEnd ih =>
      rw [List.cons_append, List.cons_append, List.cons_append, List.cons_append, lines,
        if_neg notEnd, ← List.cons_append, ← List.cons_append, ih]
      cases found : marks.lines (d :: text) with
      | nil => exact absurd found (marks.lines_ne_nil _)
      | cons line rest => rfl

theorem lines_of_not_mem {text : List α} (absent : marks.cr ∉ text) :
    marks.lines text = [text] := by
  fun_induction lines marks text with
  | case1 | case2 => rfl
  | case3 c d text isEnd => exact absurd isEnd.1 fun same => absent (same ▸ List.mem_cons_self)
  | case4 c d text _ ih => rw [ih fun member => absent (List.mem_cons_of_mem _ member)]; rfl

/-- The lines are the text. -/
theorem unlines_lines (text : List α) : marks.unlines (marks.lines text) = text ++ marks.crlf := by
  unfold unlines
  fun_induction lines marks text with
  | case1 | case2 => rfl
  | case3 c d text isEnd ih =>
      rcases isEnd with ⟨rfl, rfl⟩
      rw [List.flatMap_cons, ih]
      rfl
  | case4 c d text _ ih =>
      cases found : marks.lines (d :: text) with
      | nil => exact absurd found (marks.lines_ne_nil _)
      | cons line rest =>
          rw [found, List.flatMap_cons] at ih
          rw [List.modifyHead_cons, List.flatMap_cons, List.cons_append, List.cons_append, ih]
          rfl

/-- The lines of a text that ends with the terminator. -/
theorem lines_terminated (text : List α) :
    marks.lines (text ++ marks.terminator) = marks.lines text ++ [[marks.dot], []] := by
  have dotLine : marks.lines ([marks.dot] ++ marks.crlf ++ []) = [[marks.dot], []] := by
    rw [lines_append]
    rfl
  have same : text ++ marks.terminator =
      text ++ marks.crlf ++ ([marks.dot] ++ marks.crlf ++ []) := by
    simp [terminator]
  rw [same, lines_append, dotLine]

/-! ## The reader -/

/-- Lines before the end are read one by one. -/
theorem receiveLines_append {before : List (List α)} (going : [marks.dot] ∉ before)
    {more : List (List α)} (nonempty : more ≠ []) :
    marks.receiveLines (before ++ more) =
      (marks.receiveLines more).map fun (text, rest) =>
        (before.map marks.unstuff ++ text, rest) := by
  induction before with
  | nil => simp
  | cons line before ih =>
      rcases not_or.mp (List.mem_cons.not.mp going) with ⟨other, going⟩
      cases found : before ++ more with
      | nil => exact absurd (List.append_eq_nil_iff.mp found).2 nonempty
      | cons next later =>
          rw [List.cons_append, found, receiveLines, if_neg (Ne.symm other), ← found, ih going,
            Option.map_map]
          rfl

theorem unstuff_eq_self {line : List α} (plain : line.head? ≠ some marks.dot) :
    marks.unstuff line = line := by
  cases line with
  | nil => rfl
  | cons c line =>
      rw [unstuff, if_neg]
      intro same
      exact plain (congrArg some same)

theorem length_unstuff_lt {line : List α} (dotted : line.head? = some marks.dot) :
    (marks.unstuff line).length < line.length := by
  cases line with
  | nil => cases dotted
  | cons c line =>
      obtain rfl : c = marks.dot := by simpa using dotted
      rw [unstuff, if_pos rfl, List.length_cons]
      exact Nat.lt_succ_self _

omit [DecidableEq α] in
theorem length_unlines_cons (line : List α) (text : List (List α)) :
    (marks.unlines (line :: text)).length = line.length + 2 + (marks.unlines text).length := by
  simp only [unlines, crlf, List.flatMap_cons, List.length_append, List.length_cons,
    List.length_nil]

/-- One line that does not end the text. -/
theorem receiveLines_cons {line : List α} (other : line ≠ [marks.dot]) {more : List (List α)}
    (nonempty : more ≠ []) :
    marks.receiveLines (line :: more) =
      (marks.receiveLines more).map fun (text, rest) => (marks.unstuff line :: text, rest) := by
  have going : [marks.dot] ∉ [line] := fun member => other (List.mem_singleton.mp member).symm
  simpa using marks.receiveLines_append going nonempty

/-- The receiver never gets more than was sent. -/
theorem length_le_of_receiveLines {text got rest : List (List α)}
    (read : marks.receiveLines (text ++ [[marks.dot], []]) = some (got, rest)) :
    (marks.unlines got).length ≤ (marks.unlines text).length := by
  induction text generalizing got rest with
  | nil =>
      obtain ⟨rfl, -⟩ : [] = got ∧ [[]] = rest := by simpa [receiveLines] using read
      exact Nat.le_refl _
  | cons line text ih =>
      by_cases isEnd : line = [marks.dot]
      · have early : ∃ rest', marks.receiveLines (line :: text ++ [[marks.dot], []]) =
            some ([], rest') := by
          cases text <;> simp [receiveLines, isEnd]
        obtain ⟨rest', early⟩ := early
        obtain ⟨rfl, -⟩ := Prod.mk.inj (Option.some.inj (early.symm.trans read))
        exact Nat.zero_le _
      · rw [List.cons_append, marks.receiveLines_cons isEnd (by simp)] at read
        rcases Option.map_eq_some_iff.mp read with ⟨⟨got', rest'⟩, read', same⟩
        obtain ⟨rfl, -⟩ := Prod.mk.inj same
        have shorter := ih read'
        have unstuffed : (marks.unstuff line).length ≤ line.length := by
          by_cases dotted : line.head? = some marks.dot
          · exact Nat.le_of_lt (marks.length_unstuff_lt dotted)
          · exact Nat.le_of_eq (congrArg List.length (marks.unstuff_eq_self dotted))
        rw [length_unlines_cons, length_unlines_cons]
        omega

/-- **Transparency.** A text arrives as it is, and nothing is left over, exactly
when no line of it starts with a dot. -/
theorem receiveLines_terminated_iff (text : List (List α)) :
    (marks.receiveLines (text ++ [[marks.dot], []])).map
        (fun (got, rest) => (marks.unlines got, rest)) = some (marks.unlines text, [[]]) ↔
      ∀ line ∈ text, line.head? ≠ some marks.dot := by
  induction text with
  | nil => simp [receiveLines]
  | cons line text ih =>
      rw [List.forall_mem_cons]
      by_cases isEnd : line = [marks.dot]
      · subst isEnd
        refine iff_of_false ?_ fun plain => plain.1 rfl
        cases text <;> simp [receiveLines]
      · rw [List.cons_append, marks.receiveLines_cons isEnd (by simp)]
        by_cases plain : line.head? = some marks.dot
        · refine iff_of_false ?_ fun both => both.1 plain
          intro whole
          rcases Option.map_eq_some_iff.mp whole with ⟨⟨got, rest⟩, read, same⟩
          rcases Option.map_eq_some_iff.mp read with ⟨⟨got', rest'⟩, read', step⟩
          obtain ⟨rfl, -⟩ := Prod.mk.inj step
          have lengths := congrArg List.length (Prod.mk.inj same).1
          have shorter := marks.length_le_of_receiveLines read'
          have unstuffed := marks.length_unstuff_lt plain
          rw [length_unlines_cons, length_unlines_cons] at lengths
          omega
        · rw [and_iff_right plain, ← ih, marks.unstuff_eq_self plain]
          cases marks.receiveLines (text ++ [[marks.dot], []]) with
          | none => simp
          | some read => simp [Prod.ext_iff, unlines]

end DotMarks

end Basis

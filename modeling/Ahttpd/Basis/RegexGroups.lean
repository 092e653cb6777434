import Ahttpd.Basis.Regex

/-!
# Groups that are not read

No group decides how an expression matches, so those that are not read can be
left out of it (`search_keep`). What is left of the usual negated classes,
`(?!a).` and the like, is then a class (`run_notAhead_seq`), and a repetition up
to a stop character has only one way to match (`run_star_stop`).
-/

namespace Basis

namespace Regex

variable {α : Type*}

/-- Whether a group was set. -/
def Captures.matched (captures : Captures α) (index : Nat) : Bool :=
  (captures.find? (·.1 == index)).isSome

/-- Optional, and taken if possible. -/
def opt (r : Regex α) : Regex α := .alt r .empty

/-- One character after another, each of its class. -/
def word : List (α → Bool) → Regex α
  | [] => .empty
  | p :: ps => .seq (.cls p) (word ps)

/-- The expression with only these groups. -/
def keep (kept : Nat → Bool) : Regex α → Regex α
  | .empty => .empty
  | .cls p => .cls p
  | .seq first second => .seq (keep kept first) (keep kept second)
  | .alt first second => .alt (keep kept first) (keep kept second)
  | .star body => .star (keep kept body)
  | .group index body =>
      if kept index then .group index (keep kept body) else keep kept body
  | .notAhead body => .notAhead (keep kept body)

/-- The captures of these groups. -/
def Captures.restrict (kept : Nat → Bool) (captures : Captures α) : Captures α :=
  captures.filter fun capture => kept capture.1

section Keep

variable {kept : Nat → Bool} {index : Nat} {captures : Captures α}

theorem find?_restrict (isKept : kept index = true) :
    ((captures.restrict kept).find? fun capture => capture.1 == index) =
      captures.find? fun capture => capture.1 == index := by
  rw [Captures.restrict, List.find?_filter]
  congr 1
  funext capture
  by_cases same : capture.1 = index
  · simp [same, isKept]
  · simp [same]

theorem Captures.str_restrict (isKept : kept index = true) :
    (captures.restrict kept).str index = captures.str index := by
  unfold Captures.str
  rw [find?_restrict isKept]

theorem Captures.matched_restrict (isKept : kept index = true) :
    (captures.restrict kept).matched index = captures.matched index := by
  unfold Captures.matched
  rw [find?_restrict isKept]

/-- A way to match, with the captures of the groups that are kept. -/
def restrictWay (kept : Nat → Bool) (way : List α × Captures α) : List α × Captures α :=
  (way.1, way.2.restrict kept)

theorem iterate_keep {body body' : List α → Captures α → List (List α × Captures α)}
    (same : ∀ input captures, body' input (Captures.restrict kept captures) =
      (body input captures).map (restrictWay kept)) (n : Nat) (input : List α)
    (captures : Captures α) : iterate body' n input (captures.restrict kept) =
      (iterate body n input captures).map (restrictWay kept) := by
  induction n generalizing input captures with
  | zero => rfl
  | succ n ih =>
      rw [iterate, iterate, same, List.map_append, List.flatMap_map, List.map_flatMap]
      congr 1
      apply List.flatMap_congr
      intro way _
      by_cases shorter : way.1.length < input.length
      · rw [if_pos shorter, restrictWay, if_pos shorter]
        exact ih _ _
      · rw [if_neg shorter, restrictWay, if_neg shorter]
        rfl

/-- The ways to match stay, in their order. -/
theorem run_keep (r : Regex α) (input : List α) (captures : Captures α) :
    (keep kept r).run input (captures.restrict kept) =
      (r.run input captures).map (restrictWay kept) := by
  induction r generalizing input captures with
  | empty => rfl
  | cls p =>
      cases input with
      | nil => rfl
      | cons c input =>
          simp only [keep, run]
          split <;> rfl
  | seq first second ihFirst ihSecond =>
      rw [keep, run_seq, run_seq, ihFirst, List.flatMap_map, List.map_flatMap]
      apply List.flatMap_congr
      intro way _
      exact ihSecond _ _
  | alt first second ihFirst ihSecond =>
      simp only [keep, run]
      rw [ihFirst, ihSecond, List.map_append]
  | star body ih => exact iterate_keep ih _ _ _
  | group index body ih =>
      rw [keep]
      by_cases isKept : kept index = true
      · rw [if_pos isKept, run_group, run_group, ih, List.map_map, List.map_map]
        apply List.map_congr_left
        intro way _
        simp [restrictWay, Captures.restrict, isKept]
      · rw [if_neg isKept, run_group, ih, List.map_map]
        apply List.map_congr_left
        intro way _
        simp [restrictWay, Captures.restrict, isKept]
  | notAhead body ih =>
      simp only [keep, run]
      rw [ih, List.isEmpty_map]
      split <;> rfl

/-- **Only groups that are read matter.** -/
theorem search_keep (kept : Nat → Bool) (r : Regex α) (input : List α) :
    (keep kept r).search input = (r.search input).map (Captures.restrict kept) := by
  have atStart : ∀ input, (keep kept r).run input [] = (r.run input []).map (restrictWay kept) :=
    fun input => run_keep r input []
  induction input with
  | nil =>
      rw [search, search, atStart, List.head?_map, Option.map_map, Option.map_map]
      rfl
  | cons c input ih =>
      rw [search, search, atStart, List.head?_map]
      cases (r.run (c :: input) []).head? with
      | none => exact ih
      | some way => rfl

end Keep

/-! ## The same ways to match -/

section Same

variable {r r' next next' : Regex α}

theorem run_seq_congr (same : r.run = r'.run) (same' : next.run = next'.run) :
    (seq r next).run = (seq r' next').run := by
  funext input captures
  rw [run_seq, run_seq, same, same']

theorem run_alt_congr (same : r.run = r'.run) (same' : next.run = next'.run) :
    (alt r next).run = (alt r' next').run := by
  funext input captures
  simp only [run, same, same']

theorem run_star_congr (same : r.run = r'.run) : (star r).run = (star r').run := by
  funext input captures
  simp only [run, same]

theorem run_group_congr {index : Nat} (same : r.run = r'.run) :
    (group index r).run = (group index r').run := by
  funext input captures
  rw [run_group, run_group, same]

theorem run_opt_congr (same : r.run = r'.run) : (opt r).run = (opt r').run :=
  run_alt_congr same rfl

theorem run_plus_congr (same : r.run = r'.run) : (plus r).run = (plus r').run :=
  run_seq_congr same (run_star_congr same)

/-- A character that is not ahead. -/
theorem run_notAhead_seq (p q : α → Bool) :
    (seq (notAhead (cls q)) (cls p)).run = (cls fun c => p c && !q c).run := by
  funext input captures
  cases input with
  | nil => rfl
  | cons c input => cases here : q c <;> simp [run, here]

theorem search_congr (same : r.run = r'.run) : r.search = r'.search := by
  funext input
  induction input with
  | nil => rw [search, search, same]
  | cons c input ih => rw [search, search, same, ih]

end Same

section Ways

variable {p : α → Bool} {ps : List (α → Bool)} {index : Nat} {r next : Regex α}
  {taken rest input : List α} {captures : Captures α}

theorem run_seq_assoc {r' : Regex α} : (seq (seq r r') next).run input captures =
    (seq r (seq r' next)).run input captures := by
  simp only [run_seq, List.flatMap_assoc]

theorem run_opt_seq : (seq (opt r) next).run input captures =
    (seq r next).run input captures ++ next.run input captures := by
  simp only [opt, run, List.flatMap_append, List.flatMap_singleton]

theorem head?_opt {way : List α × Captures α} (first : (r.run input captures).head? = some way) :
    ((opt r).run input captures).head? = some way := by
  rw [opt, run, List.head?_append, first, Option.some_or]

theorem run_opt_ne_nil : (opt r).run input captures ≠ [] :=
  List.append_ne_nil_of_right_ne_nil _ (List.cons_ne_nil _ _)

theorem run_word (fits : List.Forall₂ (fun p c => p c = true) ps taken) (rest : List α)
    (captures : Captures α) : (word ps).run (taken ++ rest) captures = [(rest, captures)] := by
  induction fits with
  | nil => rfl
  | cons holds _ ih =>
      rw [word, List.cons_append, run_seq, run_cls_of_pos holds, List.flatMap_singleton]
      exact ih

theorem exists_of_mem_run_word {way : List α × Captures α}
    (member : way ∈ (word ps).run input captures) :
    ∃ taken, input = taken ++ way.1 ∧ List.Forall₂ (fun p c => p c = true) ps taken := by
  induction ps generalizing input captures with
  | nil =>
      obtain rfl := List.mem_singleton.mp member
      exact ⟨[], rfl, .nil⟩
  | cons p ps ih =>
      rw [word, run_seq] at member
      cases input with
      | nil => cases member
      | cons c input =>
          cases holds : p c with
          | false =>
              rw [run_cls_of_neg holds] at member
              cases member
          | true =>
              rw [run_cls_of_pos holds, List.flatMap_singleton] at member
              obtain ⟨taken, rfl, all⟩ := ih member
              exact ⟨c :: taken, rfl, .cons holds all⟩

/-- Of what a greedy run can leave, only the least is looked at when nothing
begins inside the run. -/
theorem flatMap_leftovers {β : Type*} {f : List α → List β} (all : ∀ c ∈ taken, p c = true)
    (stops : ∀ c ∈ rest.head?, p c = false) (inside : ∀ c input, p c = true → f (c :: input) = []) :
    (leftovers p (taken ++ rest)).flatMap f = f rest := by
  induction taken with
  | nil =>
      cases rest with
      | nil => exact List.flatMap_singleton _ _
      | cons c rest =>
          have stop : p c = false := stops c rfl
          rw [List.nil_append, leftovers, stop, if_neg Bool.false_ne_true, List.flatMap_singleton]
  | cons c taken ih =>
      rcases List.forall_mem_cons.mp all with ⟨holds, later⟩
      rw [List.cons_append, leftovers, if_pos holds, List.flatMap_append, ih later,
        List.flatMap_singleton, inside c _ holds, List.append_nil]

/-- **Up to a stop.** A captured run of a class in front of what does not begin
with the class has one way to match. -/
theorem run_star_stop (all : ∀ c ∈ taken, p c = true) (stops : ∀ c ∈ rest.head?, p c = false)
    (inside : ∀ c input captures, p c = true → next.run (c :: input) captures = []) :
    (seq (group index (star (cls p))) next).run (taken ++ rest) captures =
      next.run rest ((index, taken) :: captures) := by
  have text : (taken ++ rest).take ((taken ++ rest).length - rest.length) = taken := by
    rw [List.length_append, Nat.add_sub_cancel, List.take_left' rfl]
  rw [run_seq, run_group, run_star_cls, List.map_map, List.flatMap_map, flatMap_leftovers all stops]
  · simp only [Function.comp_apply, text]
  · intro c input holds
    exact inside c input _ holds

/-- Nothing is taken where the class does not begin. -/
theorem run_plus_stop (stops : ∀ c ∈ input.head?, p c = false) :
    (seq (group index (plus (cls p))) next).run input captures = [] := by
  rw [run_seq, run_group, plus, run_seq]
  cases input with
  | nil => rfl
  | cons c input =>
      rw [run_cls_of_neg (stops c rfl)]
      rfl

theorem run_seq_empty : (seq r .empty).run input captures = r.run input captures := by
  rw [run_seq]
  exact List.flatMap_singleton' _

/-- A captured run of a class that is all there is. -/
theorem head?_group_plus (nonempty : taken ≠ []) (all : ∀ c ∈ taken, p c = true) (index : Nat)
    (captures : Captures α) : ((group index (plus (cls p))).run taken captures).head? =
      some ([], (index, taken) :: captures) := by
  have found : ((seq (group index (plus (cls p))) .empty).run (taken ++ []) captures).head? =
      some ([], (index, taken) :: captures) := by
    refine head?_plus_seq nonempty all (List.cons_ne_nil _ _) ?_
    intro more rest' filled split
    exact absurd (List.append_eq_nil_iff.mp split.symm).1 filled
  rwa [List.append_nil, run_seq_empty] at found

end Ways

end Regex

end Basis

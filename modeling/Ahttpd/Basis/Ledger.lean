import Mathlib.Data.List.Basic

/-!
# Parcels that are sent in pieces

Several senders share a line, and each sends its parcel in pieces. The line
carries the parcels whole and in their order as long as behind a parcel that
has pieces left there are only empty ones (`InTurn`). A piece keeps this
(`InTurn.send`), and so does a new parcel that is empty or finds nothing owed
(`InTurn.push`); what has been sent is then a beginning of all parcels
(`InTurn.sent_isPrefix`).
-/

namespace Basis

/-- A parcel: what has been sent of it, and what is still owed. -/
structure Parcel (α : Type*) where
  sent : List α
  owed : List α

namespace Parcel

variable {α : Type*} {p : Parcel α} {l before after : List (Parcel α)} {piece rest : List α}

def whole (p : Parcel α) : List α := p.sent ++ p.owed

/-- All pieces on the line, in the order of the parcels. -/
def allSent (l : List (Parcel α)) : List α := l.flatMap sent

def allWhole (l : List (Parcel α)) : List α := l.flatMap whole

/-- Behind a parcel with something left there are only empty ones. -/
def InTurn (l : List (Parcel α)) : Prop :=
  l.Pairwise fun p q => p.owed ≠ [] → q.whole = []

theorem sent_of_empty (empty : p.whole = []) : p.sent = [] :=
  (List.append_eq_nil_iff.mp empty).1

theorem allSent_append (before after : List (Parcel α)) :
    allSent (before ++ after) = allSent before ++ allSent after :=
  List.flatMap_append

theorem allSent_of_empty (empty : ∀ p ∈ l, p.whole = []) : allSent l = [] :=
  List.flatMap_eq_nil_iff.mpr fun p member => sent_of_empty (empty p member)

theorem InTurn.push (inTurn : InTurn l) (free : (∀ p ∈ l, p.owed = []) ∨ p.whole = []) :
    InTurn (l ++ [p]) := by
  refine List.pairwise_append.mpr ⟨inTurn, List.pairwise_singleton _ _, ?_⟩
  intro q member r isNew left
  rw [List.mem_singleton.mp isNew]
  rcases free with nothing | empty
  · exact absurd (nothing q member) left
  · exact empty

/-- A piece of one parcel goes behind everything that has been sent. -/
theorem InTurn.send (inTurn : InTurn (before ++ p :: after)) (owed : p.owed = piece ++ rest) :
    InTurn (before ++ ⟨p.sent ++ piece, rest⟩ :: after) ∧
      allSent (before ++ ⟨p.sent ++ piece, rest⟩ :: after) =
        allSent (before ++ p :: after) ++ piece := by
  rcases List.pairwise_append.mp inTurn with ⟨front, back, across⟩
  rcases List.pairwise_cons.mp back with ⟨later, back⟩
  have same : (⟨p.sent ++ piece, rest⟩ : Parcel α).whole = p.whole := by
    rw [whole, whole, owed, List.append_assoc]
  constructor
  · refine List.pairwise_append.mpr ⟨front, List.pairwise_cons.mpr ⟨?_, back⟩, ?_⟩
    · intro q member left
      apply later q member
      rw [owed]
      exact fun empty => left (List.append_eq_nil_iff.mp empty).2
    · intro q member r isAfter left
      rcases List.mem_cons.mp isAfter with rfl | isAfter
      · rw [same]
        exact across q member p List.mem_cons_self left
      · exact across q member r (List.mem_cons_of_mem _ isAfter) left
  · by_cases nothing : piece = []
    · simp [nothing, allSent]
    · have others : allSent after = [] := by
        apply allSent_of_empty
        intro q member
        apply later q member
        rw [owed]
        exact fun empty => nothing (List.append_eq_nil_iff.mp empty).1
      have split (q : Parcel α) : allSent (before ++ q :: after) = allSent before ++ q.sent := by
        have behind : allSent (q :: after) = q.sent ++ allSent after := rfl
        rw [allSent_append, behind, others, List.append_nil]
      rw [split, split, List.append_assoc]

/-- What is on the line is a beginning of all parcels. -/
theorem InTurn.sent_isPrefix (inTurn : InTurn l) : allSent l <+: allWhole l := by
  induction l with
  | nil => exact List.prefix_refl _
  | cons p l ih =>
      rcases List.pairwise_cons.mp inTurn with ⟨later, inTurn⟩
      rw [allSent, allWhole, List.flatMap_cons, List.flatMap_cons, whole]
      by_cases done : p.owed = []
      · rw [done, List.append_nil]
        exact (List.prefix_append_right_inj _).mpr (ih inTurn)
      · rw [← allSent, allSent_of_empty fun q member => later q member done, List.append_nil,
          List.append_assoc]
        exact List.prefix_append _ _

theorem allSent_of_done (done : ∀ p ∈ l, p.owed = []) : allSent l = allWhole l :=
  List.flatMap_congr fun p member => by rw [whole, done p member, List.append_nil]

/-- When all parcels are on the line, nothing is owed. -/
theorem owed_of_allSent (all : allSent l = allWhole l) : ∀ p ∈ l, p.owed = [] := by
  have lengths : ∀ l : List (Parcel α), (allWhole l).length =
      (allSent l).length + (l.flatMap owed).length := by
    intro l
    induction l with
    | nil => rfl
    | cons p l ih =>
        simp only [allWhole, allSent, whole, List.flatMap_cons, List.length_append] at ih ⊢
        omega
  have none : l.flatMap owed = [] := by
    apply List.length_eq_zero_iff.mp
    have total := lengths l
    rw [all] at total
    omega
  exact List.flatMap_eq_nil_iff.mp none

end Parcel

end Basis

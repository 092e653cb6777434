import Ahttpd.Basis.Transition

/-!
# Runs that come to an end

A budget is a number that every step lowers. A run is then no longer than the
budget of its first state (`Run.length_le`), and it can be continued to a state
that no step leaves (`exists_stuck`), so that what the last states of a system
have in common is what every run comes to.
-/

namespace Basis

namespace TransitionSystem

variable {σ : Type*} {T : TransitionSystem σ} {budget : σ → Nat} {P : σ → Prop} {s t : σ} {k : Nat}

/-- A run of `k` steps from `s`. -/
inductive Run (T : TransitionSystem σ) (s : σ) : Nat → σ → Prop
  | refl : Run T s 0 s
  | tail {k t u} : Run T s k t → T.step t u → Run T s (k + 1) u

/-- No step leaves this state. -/
def Stuck (T : TransitionSystem σ) (s : σ) : Prop := ∀ t, ¬T.step s t

/-- Every step lowers the budget. -/
def Falls (T : TransitionSystem σ) (budget : σ → Nat) : Prop :=
  ∀ s t, T.step s t → budget t < budget s

theorem Run.head {u : σ} (first : T.step s t) (later : T.Run t k u) : T.Run s (k + 1) u := by
  induction later with
  | refl => exact .tail .refl first
  | tail _ step ih => exact .tail ih step

theorem Run.invariant (run : T.Run s k t) (holds : P s) (kept : ∀ s t, P s → T.step s t → P t) :
    P t := by
  induction run with
  | refl => exact holds
  | tail _ step ih => exact kept _ _ ih step

/-- A run is no longer than the budget it spends. -/
theorem Run.length_le (falls : T.Falls budget) (run : T.Run s k t) : k + budget t ≤ budget s := by
  induction run with
  | refl => exact Nat.le_of_eq (Nat.zero_add _)
  | tail _ step ih =>
      have lower := falls _ _ step
      omega

/-- Some run ends where no step goes on. -/
theorem exists_stuck (falls : T.Falls budget) (s : σ) : ∃ k t, T.Run s k t ∧ T.Stuck t := by
  induction left : budget s using Nat.strongRecOn generalizing s with
  | _ b ih =>
      by_cases stuck : T.Stuck s
      · exact ⟨0, s, .refl, stuck⟩
      · obtain ⟨t, step⟩ := Classical.not_forall_not.mp stuck
        obtain ⟨k, u, later, ends⟩ := ih (budget t) (left ▸ falls s t step) t rfl
        exact ⟨k + 1, u, later.head step, ends⟩

end TransitionSystem

end Basis

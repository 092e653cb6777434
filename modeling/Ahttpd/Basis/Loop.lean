import Mathlib.Logic.Relation

/-!
# Loops with a rank

A `Loop` is a step function that goes on or halts with a result, packaged with
a rank that every continuing step lowers. `Loop.run` is therefore total and has
no fuel to run out of, and it still evaluates by structural recursion on a
bound for the rank. Its rules are the unfolding `run_eq`, the induction
`run_induction`, and the lockstep rule `run_simulation`.
-/

namespace Basis

/-- A terminating loop over states `σ` with results `ρ`. -/
structure Loop (σ : Type*) (ρ : Type*) where
  step : σ → σ ⊕ ρ
  rank : σ → Nat
  rank_lt : ∀ s t, step s = .inl t → rank t < rank s

namespace Loop

variable {σ σ' ρ ρ' : Type*} (L : Loop σ ρ)

/-- Run from `s` with a bound on its rank. -/
def runBelow : (bound : Nat) → (s : σ) → L.rank s < bound → ρ
  | 0, _, low => absurd low (Nat.not_lt_zero _)
  | bound + 1, s, low =>
      match eq : L.step s with
      | .inr result => result
      | .inl t => runBelow bound t
          (Nat.lt_of_lt_of_le (L.rank_lt s t eq) (Nat.le_of_lt_succ low))

/-- The result of the loop from `s`. -/
def run (s : σ) : ρ := L.runBelow (L.rank s + 1) s (Nat.lt_succ_self _)

variable {L}

theorem runBelow_irrelevant {first second : Nat} {s : σ}
    (low : L.rank s < first) (low' : L.rank s < second) :
    L.runBelow first s low = L.runBelow second s low' := by
  induction first generalizing second s with
  | zero => exact absurd low (Nat.not_lt_zero _)
  | succ first ih =>
      cases second with
      | zero => exact absurd low' (Nat.not_lt_zero _)
      | succ second =>
          unfold runBelow
          split
          · rfl
          · exact ih _ _

theorem run_of_halt {s : σ} {result : ρ} (halts : L.step s = .inr result) :
    L.run s = result := by
  unfold run runBelow
  split
  · rename_i eq
    exact Sum.inr.inj (eq.symm.trans halts)
  · rename_i eq
    cases eq.symm.trans halts

theorem run_of_step {s t : σ} (goes : L.step s = .inl t) : L.run s = L.run t := by
  change L.runBelow (L.rank s + 1) s _ = L.run t
  unfold runBelow
  split
  · rename_i eq
    cases eq.symm.trans goes
  · rename_i eq
    obtain rfl := Sum.inl.inj (eq.symm.trans goes)
    exact runBelow_irrelevant _ _

/-- One unfolding of a loop. -/
theorem run_eq (s : σ) : L.run s = match L.step s with
    | .inl t => L.run t
    | .inr result => result := by
  cases eq : L.step s with
  | inl t => exact run_of_step eq
  | inr result => exact run_of_halt eq

/-- Induction along a run, from the halting step backwards. -/
theorem run_induction {motive : σ → ρ → Prop}
    (halt : ∀ s result, L.step s = .inr result → motive s result)
    (step : ∀ s t, L.step s = .inl t → motive t (L.run t) → motive s (L.run t)) (s : σ) :
    motive s (L.run s) := by
  induction rank : L.rank s using Nat.strongRecOn generalizing s with
  | _ r ih =>
      cases eq : L.step s with
      | inr result => rw [run_of_halt eq]; exact halt s result eq
      | inl t =>
          rw [run_of_step eq]
          exact step s t eq (ih _ (rank ▸ L.rank_lt s t eq) t rfl)

/-- Two loops whose steps keep a relation between their states, and whose
halting steps are related, have related results. -/
theorem run_simulation {L : Loop σ ρ} {M : Loop σ' ρ'} {R : σ → σ' → Prop} {Q : ρ → ρ' → Prop}
    (step : ∀ s s', R s s' → Sum.LiftRel R Q (L.step s) (M.step s')) {s : σ} {s' : σ'}
    (related : R s s') : Q (L.run s) (M.run s') := by
  refine L.run_induction (motive := fun s r => ∀ s', R s s' → Q r (M.run s')) ?_ ?_ s s' related
  · intro s result halts s' related
    have lockstep := step s s' related
    rw [halts] at lockstep
    cases eq : M.step s' with
    | inl t' => rw [eq] at lockstep; cases lockstep
    | inr result' =>
        rw [eq] at lockstep
        rw [run_of_halt eq]
        exact Sum.liftRel_inr_inr.mp lockstep
  · intro s t goes ih s' related
    have lockstep := step s s' related
    rw [goes] at lockstep
    cases eq : M.step s' with
    | inr result' => rw [eq] at lockstep; cases lockstep
    | inl t' =>
        rw [eq] at lockstep
        rw [run_of_step eq]
        exact ih t' (Sum.liftRel_inl_inl.mp lockstep)

/-- The loop can be at `t` after it was at `s`. -/
def Visits (L : Loop σ ρ) : σ → σ → Prop :=
  Relation.ReflTransGen fun s t => L.step s = .inl t

theorem Visits.step {s t u : σ} (goes : L.step s = .inl t) (later : L.Visits t u) :
    L.Visits s u :=
  .head goes later

theorem visits_of_halt {s t : σ} {result : ρ} (halts : L.step s = .inr result) :
    L.Visits s t ↔ t = s := by
  constructor
  · intro passes
    rcases Relation.ReflTransGen.cases_head passes with same | ⟨u, goes, -⟩
    · exact same.symm
    · cases halts.symm.trans goes
  · intro same
    subst same
    exact .refl

theorem visits_of_step {s t u : σ} (goes : L.step s = .inl t) :
    L.Visits s u ↔ u = s ∨ L.Visits t u := by
  constructor
  · intro passes
    rcases Relation.ReflTransGen.cases_head passes with same | ⟨t', goes', later⟩
    · exact .inl same.symm
    · obtain rfl := Sum.inl.inj (goes.symm.trans goes')
      exact .inr later
  · intro passes
    rcases passes with rfl | later
    · exact .refl
    · exact .step goes later

/-- What a halting step decides of its state alone, and every other step leaves
open, a run decides of all states it visits. -/
theorem run_iff_visits {P I : σ → Prop} {Q : ρ → Prop}
    (halt : ∀ s result, I s → L.step s = .inr result → (Q result ↔ P s))
    (step : ∀ s t, I s → L.step s = .inl t → P s ∧ I t) (s : σ) (start : I s) :
    Q (L.run s) ↔ ∀ t, L.Visits s t → P t := by
  refine L.run_induction (motive := fun s r => I s → (Q r ↔ ∀ t, L.Visits s t → P t))
    ?_ ?_ s start
  · intro s result halts inv
    rw [halt s result inv halts]
    simp only [visits_of_halt halts, forall_eq]
  · intro s t goes ih inv
    obtain ⟨here, inv⟩ := step s t inv goes
    rw [ih inv]
    simp only [visits_of_step goes, forall_eq_or_imp, here, true_and]

/-- A halting step may decide that its state is one of a kind that no other step
leaves. -/
theorem run_iff_exists_visits {P I : σ → Prop} {Q : ρ → Prop}
    (halt : ∀ s result, I s → L.step s = .inr result → (Q result ↔ P s))
    (step : ∀ s t, I s → L.step s = .inl t → ¬P s ∧ I t) (s : σ) (start : I s) :
    Q (L.run s) ↔ ∃ t, L.Visits s t ∧ P t := by
  have none := run_iff_visits (L := L) (P := fun t => ¬P t) (Q := fun result => ¬Q result)
    (fun s result inv halts => not_congr (halt s result inv halts)) step s start
  have some := not_congr none
  simpa only [Classical.not_not, Classical.not_forall, exists_prop] using some

/-- Passing through a state does not change the result. -/
theorem Visits.run_eq {s t : σ} (passes : L.Visits s t) : L.run s = L.run t := by
  induction passes with
  | refl => rfl
  | tail _ goes ih => rw [ih, run_of_step goes]

/-- The lockstep rule for steps that keep the relation only where the states
meet a condition: two runs all of whose states do have related results. -/
theorem run_simulation_of_visits {L : Loop σ ρ} {M : Loop σ' ρ'} {R : σ → σ' → Prop}
    {Q : ρ → ρ' → Prop} {P : σ → Prop} {S : σ' → Prop}
    (step : ∀ s s', R s s' → P s → S s' → Sum.LiftRel R Q (L.step s) (M.step s'))
    {s : σ} {s' : σ'} (related : R s s') (all : ∀ t, L.Visits s t → P t)
    (all' : ∀ t', M.Visits s' t' → S t') : Q (L.run s) (M.run s') := by
  refine run_simulation (R := fun s s' => R s s' ∧ (∀ t, L.Visits s t → P t) ∧
    ∀ t', M.Visits s' t' → S t') ?_ ⟨related, all, all'⟩
  intro s s' invariant
  rcases invariant with ⟨related, all, all'⟩
  have lockstep := step s s' related (all s .refl) (all' s' .refl)
  cases goes : L.step s with
  | inr result =>
      cases goes' : M.step s' with
      | inl t' => rw [goes, goes'] at lockstep; cases lockstep
      | inr result' =>
          rw [goes, goes'] at lockstep
          exact .inr (Sum.liftRel_inr_inr.mp lockstep)
  | inl t =>
      cases goes' : M.step s' with
      | inr result' => rw [goes, goes'] at lockstep; cases lockstep
      | inl t' =>
          rw [goes, goes'] at lockstep
          exact .inl ⟨Sum.liftRel_inl_inl.mp lockstep, fun u later => all u (.step goes later),
            fun u' later => all' u' (.step goes' later)⟩

end Loop

end Basis

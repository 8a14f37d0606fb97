import Mathlib.Data.Set.Finite.Basic
import Mathlib.Data.Set.Finite.Lattice

/-! # Following references

Each point names at most one other point. When only finitely many points are named,
following the names from a point comes to an end unless it comes back to a point it has
passed.
-/

namespace Vpopmail.Following

variable {Point : Type} (next : Point → Option Point)

/-- The point that is reached after some steps. -/
def follow : (steps : Nat) → Point → Option Point
  | 0, point => some point
  | steps + 1, point => (next point).bind (follow steps)

def Ends (point : Point) : Prop := ∃ steps, follow next steps point = none

variable {next}

end Vpopmail.Following

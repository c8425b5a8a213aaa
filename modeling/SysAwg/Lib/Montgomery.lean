/-
The Montgomery ladder over a commutative ring.

A ladder keeps two points as fractions, the second ahead of the first by a fixed point of
abscissa `x1`.  A rung doubles the first and adds the second to it; which of the two is
doubled is decided by the scalar's next bit, from the top down, and a pending swap is
carried to the next rung instead of being undone.
-/
import Mathlib.Algebra.Ring.Basic

namespace Montgomery

/-- The two points. -/
structure Pair (F : Type) where
  x2 : F
  z2 : F
  x3 : F
  z3 : F
  deriving DecidableEq

variable {F : Type}

/-- The points the other way round, if so decided. -/
def Pair.swapIf (s : Pair F) (swap : Bool) : Pair F := if swap then ⟨s.x3, s.z3, s.x2, s.z2⟩ else s

variable [CommRing F]

/-- Double the first point, add the second to it; `c` is `(A - 2) / 4`. -/
def rung (c x1 : F) (s : Pair F) : Pair F :=
  let a := s.x2 + s.z2
  let b := s.x2 - s.z2
  let da := (s.x3 - s.z3) * a
  let cb := (s.x3 + s.z3) * b
  let e := a * a - b * b
  ⟨a * a * (b * b), e * (e * c + a * a), (da + cb) * (da + cb), x1 * (da - cb) * (da - cb)⟩

/-- From bit `n - 1` down to bit 0, and the last swap. -/
def climb (c x1 : F) (bits : Nat → Bool) : Nat → Bool → Pair F → Pair F
  | 0, swap, s => s.swapIf swap
  | n + 1, swap, s => climb c x1 bits n (bits n) (rung c x1 (s.swapIf (bits n != swap)))

/-- Where a ladder starts: infinity and the point itself. -/
def Pair.start (x1 : F) : Pair F := ⟨1, 0, x1, 1⟩

end Montgomery

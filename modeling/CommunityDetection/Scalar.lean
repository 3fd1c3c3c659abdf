/-!
# The numbers of the search

Weights, volumes, gains and modularities are scalars. The search uses only the operations of
`Scalar` and assumes no law about them, so one definition serves binary64 arithmetic, where the
order of additions matters, and exact arithmetic on an ordered field, where it does not.
-/

namespace CommunityDetection

class Scalar (α : Type) extends Zero α, One α, NatCast α, Add α, Sub α, Mul α, Div α, Neg α,
    LT α, LE α where
  decidableLT : DecidableLT α
  /-- Comparison is decided; it may fail both ways. -/
  decidableLE : DecidableLE α
  /-- The zero from which the terms of a list are summed; it may carry a sign. -/
  sumStart : α
  isFinite : α → Bool

namespace Scalar

variable {α : Type} [Scalar α]

instance : DecidableLT α := decidableLT

instance : DecidableLE α := decidableLE

def total (terms : List α) : α := terms.foldl (· + ·) 0

def sum (terms : List α) : α := terms.foldl (· + ·) sumStart

def abs (x : α) : α := if x < 0 then -x else x

/-- The larger number; the first one unless the second exceeds it. -/
def max (x y : α) : α := if x < y then y else x

def ratio (numerator denominator : Nat) : α := (numerator : α) / (denominator : α)

end Scalar

/-- Binary64 numbers. Sums of lists start from the negative zero, which every term replaces. -/
instance : Scalar Float where
  zero := 0.0
  one := 1.0
  natCast := Float.ofNat
  decidableLT := inferInstance
  decidableLE := inferInstance
  sumStart := -0.0
  isFinite := Float.isFinite

end CommunityDetection

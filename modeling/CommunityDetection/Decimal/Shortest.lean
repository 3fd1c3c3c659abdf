/-!
# Shortest decimals

A positive binary number `m * 2 ^ q` stands for all numbers that round to it. `shortest` finds the
coarsest decimal grid with a point among them and, of its two points next to the number, the nearer
one; so no decimal with fewer digits reads back as the same number, and none with as many is nearer.
-/

namespace CommunityDetection.Decimal

/-- The numbers that round to `m * 2 ^ q`, in units of `2 ^ (q - 2)`: from `4 * m - below` to
`4 * m + 2`, with the ends if `m` is even. -/
structure Rounding where
  m : Nat
  q : Int
  /-- Two; or one where the binary grid is finer below the number. -/
  below : Nat

/-- Whether a point `d * b` of a decimal grid lies among the numbers that round to `m`, where `a` is
the unit of the binary grid on the same scale. -/
def Rounding.holds (r : Rounding) (a b d : Nat) : Bool :=
  let low := (4 * r.m - r.below) * a
  let high := (4 * r.m + 2) * a
  if r.m % 2 = 0 then low ≤ d * b ∧ d * b ≤ high else low < d * b ∧ d * b < high

/-- The point of the grid of multiples of `10 ^ u` that stands for the number, if there is one: of
two points the nearer, of two equally near the upper. -/
def Rounding.pointOn? (r : Rounding) (u : Int) : Option Nat :=
  let a := Nat.pow 2 (r.q - 2).toNat * Nat.pow 10 (-u).toNat
  let b := Nat.pow 10 u.toNat * Nat.pow 2 (2 - r.q).toNat
  let d := 4 * r.m * a / b
  let lower := 0 < d && r.holds a b d
  let upper := r.holds a b (d + 1)
  match lower, upper with
  | true, true => if 2 * (4 * r.m * a - d * b) < b then some d else some (d + 1)
  | true, false => some d
  | false, true => some (d + 1)
  | false, false => none

def Rounding.search (r : Rounding) : (count : Nat) → (u : Int) → Nat × Int
  | 0, u => (0, u)
  | count + 1, u =>
    match r.pointOn? u with
    | some d => (d, u)
    | none => search r count (u - 1)

/-- Digits `d` and exponent `u` of the shortest decimal `d * 10 ^ u` for a positive binary64
number: its grids lie between those of `10 ^ 309` and `10 ^ (-324)`. -/
def Rounding.shortest (r : Rounding) : Nat × Int := r.search 634 309

end CommunityDetection.Decimal

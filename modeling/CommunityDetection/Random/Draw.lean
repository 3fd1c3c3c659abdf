import CommunityDetection.Random.Generator
import CommunityDetection.Scalar

/-!
# Random numbers and orders

Numbers of the unit interval, numbers below a bound, and shuffled orders, drawn from a generator.
-/

namespace CommunityDetection.Random

/-- A number from zero up to, and without, one: the 53 highest bits of a word as a fraction. -/
def unit {α : Type} [Scalar α] : StateM Generator α := do
  return Scalar.ratio ((← Generator.next) >>> 11).toNat (1 <<< 53)

def halfWords : Nat := 1 <<< 32

/-- A number below `bound`, which is at most `halfWords`: the high half of the product with a random
half word, corrected by a second one where the low half leaves it in doubt. -/
def below (bound : Nat) : StateM Generator Nat := do
  let product := (← Generator.nextHalf).toNat * bound
  let high := product / halfWords
  let low := product % halfWords
  if halfWords - bound < low then
    let correction := (← Generator.nextHalf).toNat * bound / halfWords
    return if halfWords ≤ low + correction then high + 1 else high
  else return high

/-- A random number that gives several small ones: its digits to successive bases. -/
structure Digits where
  value : Nat
  left : Nat
deriving DecidableEq, Repr

/-- The product of the numbers from `base` on, and the first one left out, such that the product
stays below `halfWords`. As the factors are at least two, 32 steps are enough. -/
def packBases : (steps : Nat) → (product base : Nat) → Nat × Nat
  | 0, product, base => (product, base)
  | steps + 1, product, base =>
    if product * base < halfWords then packBases steps (product * base) (base + 1)
    else (product, base)

def Digits.next (digits : Digits) (base : Nat) : StateM Generator (Nat × Digits) := do
  let digits ←
    if digits.left = 0 then do
      let (product, following) := packBases 32 base (base + 1)
      pure { value := ← below product, left := following - base : Digits }
    else pure digits
  if digits.left = 1 then return (digits.value, { digits with left := 0 })
  else return (digits.value % base, { value := digits.value / base, left := digits.left - 1 })

def shuffleFrom (items : Array Nat) (digits : Digits) : List Nat → StateM Generator (Array Nat)
  | [] => return items
  | i :: rest => do
    let (j, digits) ← digits.next (i + 1)
    shuffleFrom (items.swapIfInBounds i j) digits rest

def shuffle (n : Nat) : StateM Generator (List Nat) := do
  let items := (List.range n).toArray
  if n ≤ 1 then return items.toList
  else return (← shuffleFrom items ⟨0, 1⟩ (List.range n)).toList

end CommunityDetection.Random

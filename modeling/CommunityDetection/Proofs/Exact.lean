import CommunityDetection.Scalar
import Mathlib

/-!
# Exact arithmetic

An ordered field is read as scalars with its own operations. Sums of lists are then the sums of
algebra, whatever the order of the additions. Statements about exact arithmetic are made for every
ordered field, the rational numbers among them.
-/

namespace CommunityDetection

namespace Scalar

instance exact {K : Type} [Field K] [LinearOrder K] : Scalar K where
  toZero := inferInstance
  toOne := inferInstance
  toNatCast := inferInstance
  toAdd := inferInstance
  toSub := inferInstance
  toMul := inferInstance
  toDiv := inferInstance
  toNeg := inferInstance
  toLT := inferInstance
  toLE := inferInstance
  decidableLT := inferInstance
  decidableLE := inferInstance
  sumStart := 0
  isFinite _ := true

-- On a field, `0`, `+` and the like are those of the field rather than of its scalars.
attribute [instance (100)] toZero toOne toNatCast toAdd toSub toMul toDiv toNeg toLT toLE

variable {K : Type} [Field K] [LinearOrder K]

@[simp] theorem total_eq_sum (terms : List K) : total terms = terms.sum := by
  rw [List.sum_eq_foldl]
  rfl

@[simp] theorem sum_eq_sum (terms : List K) : Scalar.sum terms = terms.sum := by
  rw [List.sum_eq_foldl]
  rfl

end Scalar

theorem sum_map_range {M : Type} [AddCommMonoid M] (n : Nat) (f : Nat → M) :
    ((List.range n).map f).sum = ∑ i ∈ Finset.range n, f i := by
  rw [← List.sum_toFinset _ List.nodup_range, List.toFinset_range]

theorem sum_flatMap {ι M : Type} [AddCommMonoid M] (items : List ι) (terms : ι → List M) :
    (items.flatMap terms).sum = (items.map fun item => (terms item).sum).sum := by
  rw [List.flatMap_def, List.sum_flatten, List.map_map]
  rfl

end CommunityDetection

import Mathlib

/-!
# Comparisons of binary64 numbers

Unpacked numbers compare by their places in a linear order, zeros of both signs at one place; a number
that is not one has no place and compares with nothing. So comparisons chain as in an order
(`lt_of_lt_of_le`), although `≤` is not reflexive.
-/

namespace CommunityDetection.Binary
open Float.Model UnpackedFloat

/-- The place of a number: its sign, and within a sign the exponent before the mantissa. -/
def place : UnpackedFloat → Option (Int ×ₗ Int ×ₗ Int)
  | .notANumber => none
  | .infinity .negative => some (toLex (-2, toLex (0, 0)))
  | .finite .negative mantissa exponent _ => some (toLex (-1, toLex (-exponent, -mantissa)))
  | .zero _ => some (toLex (0, toLex (0, 0)))
  | .finite .positive mantissa exponent _ => some (toLex (1, toLex (exponent, mantissa)))
  | .infinity .positive => some (toLex (2, toLex (0, 0)))

section Compare

variable {e f : Int} {m n : Nat}

theorem then_eq_lt : (compare e f).then (compare m n) = .lt ↔ e < f ∨ e = f ∧ m < n := by
  simp [Ordering.then_eq_lt, compare_lt_iff_lt]

theorem then_eq_gt : (compare e f).then (compare m n) = .gt ↔ f < e ∨ e = f ∧ n < m := by
  simp [Ordering.then_eq_gt, compare_gt_iff_gt]

theorem isLE_then : ((compare e f).then (compare m n)).isLE = true ↔ e < f ∨ e = f ∧ m ≤ n := by
  rw [← Ordering.ne_gt_iff_isLE]
  simp only [then_eq_gt]
  omega

theorem isGE_then : ((compare e f).then (compare m n)).isGE = true ↔ f < e ∨ e = f ∧ n ≤ m := by
  rw [← Ordering.ne_lt_iff_isGE]
  simp only [then_eq_lt]
  omega

end Compare

theorem lt_iff (a b : UnpackedFloat) : a.lt b = true ↔ ∃ x ∈ place a, ∃ y ∈ place b, x < y := by
  -- Only two finite numbers of one sign compare by more than their signs.
  rcases a with (_ | _) | _ | _ | ⟨_ | _, m, e, p⟩ <;>
    rcases b with (_ | _) | _ | _ | ⟨_ | _, n, f, q⟩ <;>
    simp [place, UnpackedFloat.lt, UnpackedFloat.compare, Prod.Lex.toLex_lt_toLex, then_eq_lt,
      then_eq_gt]
  all_goals rfl

theorem le_iff (a b : UnpackedFloat) : a.le b = true ↔ ∃ x ∈ place a, ∃ y ∈ place b, x ≤ y := by
  rcases a with (_ | _) | _ | _ | ⟨_ | _, m, e, p⟩ <;>
    rcases b with (_ | _) | _ | _ | ⟨_ | _, n, f, q⟩ <;>
    simp [place, UnpackedFloat.le, UnpackedFloat.compare, Prod.Lex.toLex_le_toLex, isLE_then,
      isGE_then]
  all_goals rfl

theorem lt_of_lt_of_le {a b c : Float} (less : a < b) (most : b ≤ c) : a < c := by
  have less : a.toModel.unpack.lt b.toModel.unpack = true := of_decide_eq_true less
  have most : b.toModel.unpack.le c.toModel.unpack = true := of_decide_eq_true most
  obtain ⟨x, first, y, second, below⟩ := (lt_iff _ _).mp less
  obtain ⟨z, again, w, third, le⟩ := (le_iff _ _).mp most
  cases second.symm.trans again
  exact decide_eq_true ((lt_iff _ _).mpr ⟨x, first, w, third, below.trans_le le⟩)

instance transLtLe : Trans (@LT.lt Float _) (@LE.le Float _) (@LT.lt Float _) := ⟨lt_of_lt_of_le⟩

end CommunityDetection.Binary

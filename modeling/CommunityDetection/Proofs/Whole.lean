import Mathlib

/-!
# Whole numbers in binary64

Natural numbers below `2 ^ 53` are binary64 numbers, and so long as the sums stay below that bound they
are added exactly (`ofNat_add`).
-/

namespace CommunityDetection.Binary
open Float.Model UnpackedFloat

variable {n m t a b : Nat}

/-- A number as binary64 arithmetic leaves it: 53 binary digits, the first of them not zero. -/
def whole (n : Nat) : UnpackedFloat :=
  if pos : 0 < n then
    .finite .positive (n * 2 ^ (52 - n.log2)) (n.log2 - 52) (Nat.mul_pos pos (Nat.two_pow_pos _))
  else .zero .positive

theorem log2_mul_two_pow (pos : 0 < n) (k : Nat) : (n * 2 ^ k).log2 = n.log2 + k := by
  rw [Nat.log2_eq_iff (Nat.mul_pos pos (Nat.two_pow_pos k)).ne', Nat.pow_add, Nat.add_right_comm,
    Nat.pow_add]
  exact ⟨Nat.mul_le_mul_right _ (Nat.log2_self_le pos.ne'),
    Nat.mul_lt_mul_of_pos_right Nat.lt_log2_self (Nat.two_pow_pos k)⟩

theorem log2_le_of_lt (small : n < 2 ^ 53) : n.log2 ≤ 52 := by
  rcases Nat.eq_zero_or_pos n with rfl | pos
  · decide
  · exact Nat.le_of_lt_succ ((Nat.log2_lt pos.ne').mpr small)

/-! ## Rounding -/

theorem shiftRight_exact (m k : Nat) :
    ExtendedMantissa.mk (m * 2 ^ k) false false >>> k = ⟨m, false, false⟩ := by
  change k.repeat ExtendedMantissa.shiftRightOne _ = _
  induction k generalizing m with
  | zero => simp [Nat.repeat]
  | succ k ih =>
    have twice : m * 2 ^ (k + 1) = m * 2 * 2 ^ k := by ring
    rw [Nat.repeat, twice, ih]
    simp [ExtendedMantissa.shiftRightOne]

theorem targetExponent_whole (pos : 0 < n) (t : Nat) :
    Format.binary64.targetExponent (totalExponent (n * 2 ^ t) (-t)) = n.log2 - 52 := by
  have least : Format.binary64.minExponent = -1074 := by decide
  have digits : (Format.binary64.mantissaBits : Int) = 53 := by decide
  rw [Format.targetExponent, totalExponent, log2_mul_two_pow pos, least, digits]
  omega

theorem shiftToTargetExponent_whole (pos : 0 < n) (small : n.log2 ≤ 52) (fine : 52 ≤ n.log2 + t) :
    shiftToTargetExponent .binary64 (n * 2 ^ t) (-t) .exact =
      (ExtendedMantissa.mk (n * 2 ^ (52 - n.log2)) false false, (n.log2 : Int) - 52) := by
  have excess : ((n.log2 : Int) - 52 - -t).toNat = n.log2 + t - 52 := by omega
  have digits : n * 2 ^ t = n * 2 ^ (52 - n.log2) * 2 ^ (n.log2 + t - 52) := by
    rw [Nat.mul_assoc, ← Nat.pow_add]
    congr 2
    omega
  unfold shiftToTargetExponent shiftToExponent
  dsimp only
  rw [targetExponent_whole pos, excess]
  refine Prod.ext ?_ (by dsimp only; omega)
  dsimp only [ExtendedMantissa.ofMantissaAndAccuracy]
  rw [digits, shiftRight_exact]

theorem roundWithAccuracy_whole (pos : 0 < n) (small : n.log2 ≤ 52) (fine : 52 ≤ n.log2 + t) :
    roundWithAccuracy .binary64 .positive (n * 2 ^ t) (-t) .exact = whole n := by
  have again := shiftToTargetExponent_whole (t := 52 - n.log2) pos small (by omega)
  have exponent : -((52 - n.log2 : Nat) : Int) = n.log2 - 52 := by omega
  rw [exponent] at again
  unfold roundWithAccuracy
  rw [shiftToTargetExponent_whole pos small fine]
  have rounded : ExtendedMantissa.roundedMantissa ⟨n * 2 ^ (52 - n.log2), false, false⟩ =
      n * 2 ^ (52 - n.log2) := rfl
  dsimp only
  rw [rounded, again, dif_neg (Nat.mul_pos pos (Nat.two_pow_pos _)).ne', whole, dif_pos pos]

theorem normalize_whole (small : n.log2 ≤ 52) (t : Nat) :
    normalize .binary64 ((n * 2 ^ t : Nat) : Int) (-t) .positive = whole n := by
  rcases Nat.eq_zero_or_pos n with rfl | pos
  · rw [Nat.zero_mul]
    rfl
  · have positive : (0 : Int) < ((n * 2 ^ t : Nat) : Int) :=
      Int.natCast_pos.mpr (Nat.mul_pos pos (Nat.two_pow_pos _))
    have missing : (-(t : Int) - (n.log2 - 52)).toNat = 52 - n.log2 - t := by omega
    have exponent : -(t : Int) - (52 - n.log2 - t : Nat) = -((t + (52 - n.log2 - t) : Nat) : Int) := by omega
    rw [UnpackedFloat.normalize, compare_gt_iff_gt.mpr positive]
    dsimp only
    rw [UnpackedFloat.round, Int.toNat_natCast, targetExponent_whole pos, decreaseExponent]
    dsimp only
    rw [missing, Nat.shiftLeft_eq, Nat.mul_assoc, ← Nat.pow_add, exponent]
    exact roundWithAccuracy_whole pos small (by omega)

/-! ## Packing -/

theorem unpackSign_packComponents {spec : Format} (sign : Sign) (exponent : BitVec spec.exponentBits)
    (mantissa : BitVec spec.mantissaBitsWithoutImplicit) :
    Sign.ofBitVec (unpackSign (packComponents spec sign exponent mantissa)) = sign := by
  have bit : unpackSign (packComponents spec sign exponent mantissa) = sign.toBitVec := by
    refine BitVec.eq_of_getLsbD_eq fun i bound => ?_
    have first : i = 0 := by omega
    subst first
    simp [unpackSign, packComponents, BitVec.getLsbD_append, BitVec.getElem_append]
  rw [bit]
  cases sign with
  | negative => rfl
  | positive => rfl

theorem unpack_packComponents {exponent : Nat} (pos : 0 < exponent) (bound : exponent < 2047)
    (least : 2 ^ 52 ≤ m) (most : m < 2 ^ 53) :
    UnpackedFloat.unpack .binary64 (packComponents .binary64 .positive (BitVec.ofNat 11 exponent)
      (BitVec.ofNat 52 m)) = .finite .positive m (exponent - 1075) (by omega) := by
  have value : (BitVec.ofNat 11 exponent).toNat = exponent := by
    rw [BitVec.toNat_ofNat, Nat.mod_eq_of_lt (by omega)]
  have notLargest : BitVec.ofNat 11 exponent ≠ -1#11 := by
    intro same
    have largest := congrArg BitVec.toNat same
    rw [value] at largest
    have : (-1#11).toNat = 2047 := by decide
    omega
  have notZero : BitVec.ofNat 11 exponent ≠ 0#11 := by
    intro same
    have zero := congrArg BitVec.toNat same
    rw [value] at zero
    exact pos.ne' zero
  have digits : (1#1 ++ BitVec.ofNat 52 m).toNat = m := by
    rw [BitVec.toNat_append, ← Nat.shiftLeft_add_eq_or_of_lt (BitVec.isLt _), BitVec.toNat_ofNat]
    simp only [BitVec.toNat_ofNat, Nat.shiftLeft_eq]
    omega
  unfold UnpackedFloat.unpack
  simp only [unpackMantissa_packComponents, unpackExponent_packComponents, unpackSign_packComponents,
    notLargest, notZero, if_false, digits, value]
  rfl

theorem unpack_pack_whole (small : n.log2 ≤ 52) :
    (Float.Model.pack (whole n)).unpack = whole n := by
  change UnpackedFloat.unpack .binary64 (UnpackedFloat.pack .binary64 (whole n)) = whole n
  rcases Nat.eq_zero_or_pos n with rfl | pos
  · rfl
  · have mantissa : (n * 2 ^ (52 - n.log2)).log2 = 52 := by rw [log2_mul_two_pow pos]; omega
    have exponent : ((n.log2 : Int) - 52 + Format.binary64.exponentBias +
        Format.binary64.mantissaBitsWithoutImplicit).toNat = n.log2 + 1023 := by
      have bias : Format.binary64.exponentBias = 1023 := by decide
      rw [bias]
      dsimp only
      omega
    rw [whole, dif_pos pos, UnpackedFloat.pack]
    dsimp only
    have unbiased : ((n.log2 + 1023 : Nat) : Int) - 1075 = n.log2 - 52 := by omega
    have least := Nat.log2_self_le (Nat.mul_pos pos (Nat.two_pow_pos (52 - n.log2))).ne'
    have most := Nat.lt_log2_self (n := n * 2 ^ (52 - n.log2))
    rw [mantissa] at least most
    rw [exponent, mantissa, if_neg (by omega), if_pos (by decide),
      unpack_packComponents (by omega) (by omega) least most]
    simp only [unbiased]

/-! ## Arithmetic -/

theorem shiftLeft_whole (small : n.log2 ≤ 52) (fine : 52 ≤ n.log2 + t) :
    (n * 2 ^ (52 - n.log2)) <<< ((n.log2 : Int) - 52 + t).toNat = n * 2 ^ t := by
  have missing : ((n.log2 : Int) - 52 + t).toNat = n.log2 + t - 52 := by omega
  rw [missing, Nat.shiftLeft_eq, Nat.mul_assoc, ← Nat.pow_add]
  congr 2
  omega

theorem add_whole (first : a.log2 ≤ 52) (second : b.log2 ≤ 52) (small : (a + b).log2 ≤ 52) :
    UnpackedFloat.add .binary64 (whole a) (whole b) = whole (a + b) := by
  rcases Nat.eq_zero_or_pos a with rfl | posA
  · rw [Nat.zero_add]
    rcases Nat.eq_zero_or_pos b with rfl | posB
    · rfl
    · simp only [whole, posB, dif_pos]
      rfl
  · rcases Nat.eq_zero_or_pos b with rfl | posB
    · simp only [whole, posA, dif_pos, Nat.add_zero]
      rfl
    · -- Both numbers are written with the digits of the finer one.
      obtain ⟨t, finer⟩ : ∃ t : Nat, min ((a.log2 : Int) - 52) (b.log2 - 52) = -t :=
        ⟨52 - min a.log2 b.log2, by omega⟩
      have sum := normalize_whole small t
      rw [Nat.add_mul] at sum
      simp only [whole, posA, posB, dif_pos, UnpackedFloat.add, finer, decreaseExponent, Sign.apply,
        Int.sub_neg]
      rw [shiftLeft_whole first (by omega), shiftLeft_whole second (by omega), ← Int.natCast_add, sum]
      rfl

theorem mul_one_whole (small : n.log2 ≤ 52) :
    UnpackedFloat.mul .binary64 (whole n) (.finite .positive (2 ^ 52) (-52) (by decide)) = whole n := by
  rcases Nat.eq_zero_or_pos n with rfl | pos
  · rfl
  · have digits : n * 2 ^ (52 - n.log2) * 2 ^ 52 = n * 2 ^ (104 - n.log2) := by
      rw [Nat.mul_assoc, ← Nat.pow_add]
      congr 2
      omega
    have exponent : (n.log2 : Int) - 52 + -52 = -((104 - n.log2 : Nat) : Int) := by omega
    have rounded := roundWithAccuracy_whole (t := 104 - n.log2) pos small (by omega)
    rw [← digits, ← exponent, whole, dif_pos pos] at rounded
    rw [whole, dif_pos pos]
    exact rounded

theorem toModel_ofNat (small : n < 2 ^ 53) :
    (Float.ofNat n).toModel = Float.Model.pack (whole n) := by
  have digits := log2_le_of_lt small
  have product : Float.ofNat n = n.toUInt64.toFloat * Float.ofBits 0x3FF0000000000000 := by
    unfold Float.ofNat
    change Float.ofScientific n false 0 = _
    rw [Float.ofScientific, dif_pos ⟨small, by decide⟩]
    rfl
  have left : n.toUInt64.toFloat.toModel = Float.Model.pack (whole n) := by
    have same : n.toUInt64.toNat = n := Nat.mod_eq_of_lt (by omega)
    change Float.Model.pack (UnpackedFloat.ofNat .binary64 n.toUInt64.toNat) = _
    have rounded := normalize_whole digits 0
    rw [Nat.pow_zero, Nat.mul_one] at rounded
    rw [same]
    exact congrArg Float.Model.pack rounded
  have one : (Float.ofBits 0x3FF0000000000000).toModel.unpack = .finite .positive (2 ^ 52) (-52) (by decide) :=
    rfl
  rw [product]
  change Float.Model.pack (UnpackedFloat.mul .binary64 n.toUInt64.toFloat.toModel.unpack
    (Float.ofBits 0x3FF0000000000000).toModel.unpack) = _
  rw [left, unpack_pack_whole digits, one, mul_one_whole digits]

theorem ofNat_add (small : a + b < 2 ^ 53) :
    Float.ofNat a + Float.ofNat b = Float.ofNat (a + b) := by
  have first : a < 2 ^ 53 := by omega
  have second : b < 2 ^ 53 := by omega
  have sum : (Float.ofNat a + Float.ofNat b).toModel = (Float.ofNat (a + b)).toModel := by
    change Float.Model.pack (UnpackedFloat.add .binary64 (Float.ofNat a).toModel.unpack
      (Float.ofNat b).toModel.unpack) = _
    rw [toModel_ofNat first, toModel_ofNat second, toModel_ofNat small,
      unpack_pack_whole (log2_le_of_lt first), unpack_pack_whole (log2_le_of_lt second),
      add_whole (log2_le_of_lt first) (log2_le_of_lt second) (log2_le_of_lt small)]
  exact congrArg Float.ofModel sum

theorem negativeZero_add (small : n < 2 ^ 53) : -0.0 + Float.ofNat n = Float.ofNat n := by
  have zero : (-0.0 : Float).toModel.unpack = .zero .negative := rfl
  have sum : (-0.0 + Float.ofNat n).toModel = (Float.ofNat n).toModel := by
    change Float.Model.pack (UnpackedFloat.add .binary64 (-0.0 : Float).toModel.unpack
      (Float.ofNat n).toModel.unpack) = _
    rw [toModel_ofNat small, unpack_pack_whole (log2_le_of_lt small), zero]
    rcases Nat.eq_zero_or_pos n with rfl | pos
    · rfl
    · simp only [whole, pos, dif_pos]
      rfl
  exact congrArg Float.ofModel sum

end CommunityDetection.Binary

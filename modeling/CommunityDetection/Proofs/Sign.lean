import CommunityDetection.Proofs.Volume
import CommunityDetection.Proofs.Whole

/-!
# Signs of binary64 numbers

Sums and products of numbers that are not below zero are not below zero either (`Upward.add`, `Upward.mul`),
and a number less itself is zero, unless it is infinite or not a number (`level_sub_self`). So binary64
volumes do not drift by themselves.
-/

namespace CommunityDetection.Binary
open Float.Model UnpackedFloat

/-- Not below zero; what is not a number is not below anything. -/
inductive Upward : UnpackedFloat → Prop
  | notANumber : Upward .notANumber
  | infinity : Upward (.infinity .positive)
  | zero (sign : Sign) : Upward (.zero sign)
  | finite (mantissa : Nat) (exponent : Int) (positive : 0 < mantissa) :
      Upward (.finite .positive mantissa exponent positive)

inductive Level : UnpackedFloat → Prop
  | notANumber : Level .notANumber
  | zero (sign : Sign) : Level (.zero sign)

variable {spec : Format} {a b : UnpackedFloat}

theorem Level.upward (level : Level a) : Upward a := by
  cases level with
  | notANumber => exact .notANumber
  | zero sign => exact .zero sign

/-! ## Packing -/

theorem upward_unpack {bits : BitVec spec.numBits} (sign : Sign.ofBitVec (unpackSign bits) = .positive) :
    Upward (UnpackedFloat.unpack spec bits) := by
  unfold UnpackedFloat.unpack
  dsimp only
  rw [sign]
  split_ifs <;> constructor

theorem upward_unpack_packComponents (exponent : BitVec spec.exponentBits)
    (mantissa : BitVec spec.mantissaBitsWithoutImplicit) :
    Upward (UnpackedFloat.unpack spec (packComponents spec .positive exponent mantissa)) :=
  upward_unpack (unpackSign_packComponents .positive exponent mantissa)

theorem Level.unpack_pack (level : Level a) : Level (Float.Model.pack a).unpack := by
  cases level with
  | notANumber => exact .notANumber
  | zero sign => cases sign <;> exact .zero _

theorem Upward.unpack_pack (upward : Upward a) : Upward (Float.Model.pack a).unpack := by
  change Upward (UnpackedFloat.unpack .binary64 (UnpackedFloat.pack .binary64 a))
  cases upward with
  | notANumber => exact upward_unpack_packComponents _ _
  | infinity => exact upward_unpack_packComponents _ _
  | zero sign => cases sign <;> exact .zero _
  | finite mantissa exponent positive =>
    unfold UnpackedFloat.pack
    dsimp only
    split_ifs <;> exact upward_unpack_packComponents _ _

/-! ## Arithmetic -/

theorem upward_roundWithAccuracy (mantissa : Nat) (exponent : Int) (accuracy : Accuracy) :
    Upward (roundWithAccuracy spec .positive mantissa exponent accuracy) := by
  unfold roundWithAccuracy
  dsimp only
  split_ifs <;> constructor

theorem upward_normalize {mantissa : Int} (positive : 0 ≤ mantissa) (exponent : Int) (sign : Sign) :
    Upward (UnpackedFloat.normalize spec mantissa exponent sign) := by
  unfold UnpackedFloat.normalize
  split
  · rename_i below
    exact absurd (compare_lt_iff_lt.mp below) (not_lt.mpr positive)
  · exact .zero sign
  · exact upward_roundWithAccuracy _ _ _

theorem Upward.add (first : Upward a) (second : Upward b) : Upward (UnpackedFloat.add spec a b) := by
  cases first with
  | notANumber => exact .notANumber
  | infinity => cases second <;> constructor
  | zero sign =>
    cases second with
    | notANumber => exact .notANumber
    | infinity => exact .infinity
    | zero other =>
      unfold UnpackedFloat.add
      dsimp only
      split_ifs <;> exact .zero _
    | finite => exact .finite _ _ _
  | finite mantissa exponent positive =>
    cases second with
    | notANumber => exact .notANumber
    | infinity => exact .infinity
    | zero => exact .finite _ _ _
    | finite other => exact upward_normalize (Int.add_nonneg (Int.natCast_nonneg _) (Int.natCast_nonneg _)) _ _

theorem Upward.mul (first : Upward a) (second : Upward b) : Upward (UnpackedFloat.mul spec a b) := by
  cases first with
  | notANumber => exact .notANumber
  | infinity => cases second <;> constructor
  | zero sign => cases second <;> constructor
  | finite mantissa exponent positive =>
    cases second with
    | notANumber => exact .notANumber
    | infinity => exact .infinity
    | zero => exact .zero _
    | finite other => exact upward_roundWithAccuracy _ _ _

theorem level_sub_self (a : UnpackedFloat) : Level (UnpackedFloat.sub spec a a) := by
  cases a with
  | notANumber => exact .notANumber
  | infinity sign => cases sign <;> exact .notANumber
  | zero sign => cases sign <;> exact .zero _
  | finite sign mantissa exponent positive =>
    unfold UnpackedFloat.sub
    dsimp only
    rw [sub_self]
    exact .zero _

/-! ## Comparison -/

theorem upward_or_lt (a : UnpackedFloat) : Upward a ∨ Upward a.neg ∧ ∀ sign, a.lt (.zero sign) = true := by
  cases a with
  | notANumber => exact .inl .notANumber
  | infinity sign =>
    cases sign with
    | positive => exact .inl .infinity
    | negative => exact .inr ⟨.infinity, fun _ => rfl⟩
  | zero sign => exact .inl (.zero sign)
  | finite sign mantissa exponent positive =>
    cases sign with
    | positive => exact .inl (.finite _ _ _)
    | negative => exact .inr ⟨.finite _ _ _, fun _ => rfl⟩

theorem Upward.not_lt (upward : Upward a) (level : Level b) : ¬a.lt b = true := by
  cases level with
  | notANumber => cases upward <;> exact Bool.false_ne_true
  | zero sign => cases upward <;> exact Bool.false_ne_true

/-! ## Volumes -/

theorem abs_eq_self {x : Float} (upward : Upward x.toModel.unpack) : Scalar.abs x = x := by
  have positive : ¬x.toModel.unpack.lt (0 : Float).toModel.unpack = true := upward.not_lt (.zero .positive)
  exact if_neg fun negative => positive (of_decide_eq_true negative)

theorem upward_abs (x : Float) : Upward (Scalar.abs x).toModel.unpack := by
  rcases upward_or_lt x.toModel.unpack with upward | ⟨upward, below⟩
  · rw [abs_eq_self upward]
    exact upward
  · have negated : Scalar.abs x = -x := if_pos (decide_eq_true (below .positive))
    rw [negated]
    exact upward.unpack_pack

theorem upward_foldl {terms : List Float} (upward : ∀ term ∈ terms, Upward term.toModel.unpack)
    {start : Float} (begins : Upward start.toModel.unpack) :
    Upward (terms.foldl (· + ·) start).toModel.unpack := by
  induction terms generalizing start with
  | nil => exact begins
  | cons term terms ih =>
    refine ih (fun other member => upward other (List.mem_cons_of_mem term member)) ?_
    exact (begins.add (upward term List.mem_cons_self)).unpack_pack

theorem upward_tolerance (volumes : Volumes Float) : Upward volumes.tolerance.toModel.unpack := by
  have millionth : (Scalar.ratio 1 1000000 : Float).toModel.unpack =
      .finite .positive 4722366482869645 (-72) (by decide) := rfl
  have factor : Upward (Scalar.ratio 1 1000000 : Float).toModel.unpack := by
    rw [millionth]
    exact .finite _ _ _
  have sum : Upward (Scalar.sum (volumes.nodes.toList.map Scalar.abs)).toModel.unpack := by
    refine upward_foldl (fun term member => ?_) (.zero .negative)
    obtain ⟨volume, -, rfl⟩ := List.mem_map.mp member
    exact upward_abs volume
  exact (factor.mul sum).unpack_pack

instance : Volumes.Steady Float where
  not_drifts volumes x below := by
    have level : Level (x - x).toModel.unpack := (level_sub_self _).unpack_pack
    rw [abs_eq_self level.upward] at below
    exact (upward_tolerance volumes).not_lt level (of_decide_eq_true below)

end CommunityDetection.Binary

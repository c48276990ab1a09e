import Mathlib
import RowMajor.Proofs.Scalar.Zero

/-! Scalars whose products change no more than their sign with that of a factor. Exact scalars
are of this kind, and so are floats: rounding does not look at the sign. -/
namespace RowMajor

class SignedProducts (α : Type) [Scalar α] : Prop where
  neg_mul (x y : α) : -x * y = -(x * y)

instance {α : Type} [ExactScalar α] : SignedProducts α where
  neg_mul x y := neg_mul x y

namespace Binary64
open Float.Model UnpackedFloat

theorem neg_sign_mul (s t : Sign) : -s * t = -(s * t) := by
  cases s <;> cases t <;> rfl

theorem ofBitVec_toBitVec (s : Sign) : Sign.ofBitVec s.toBitVec = s := by
  cases s <;> rfl

theorem unpackSign_packComponents (s : Sign) (e : BitVec 11) (m : BitVec 52) :
    unpackSign (packComponents Format.binary64 s e m) = s.toBitVec := by
  apply BitVec.eq_of_getLsbD_eq
  intro i small
  obtain rfl : i = 0 := Nat.lt_one_iff.mp small
  simp only [unpackSign, packComponents, BitVec.getLsbD_cast, BitVec.getLsbD_extractLsb,
    BitVec.getLsbD_append]
  rfl

/-- The sign is a bit of its own. -/
theorem unpack_packComponents_neg (s : Sign) (e : BitVec 11) (m : BitVec 52) :
    UnpackedFloat.unpack Format.binary64 (packComponents Format.binary64 (-s) e m) =
      (UnpackedFloat.unpack Format.binary64 (packComponents Format.binary64 s e m)).neg := by
  unfold UnpackedFloat.unpack
  simp only [unpackSign_packComponents, unpackExponent_packComponents,
    unpackMantissa_packComponents, ofBitVec_toBitVec]
  split
  · split <;> rfl
  · split
    · split <;> rfl
    · rfl

theorem unpack_pack_neg (x : UnpackedFloat) :
    (Float.Model.pack x.neg).unpack = (Float.Model.pack x).unpack.neg := by
  cases x with
  | notANumber => rfl
  | infinity s => cases s <;> rfl
  | zero s => cases s <;> rfl
  | finite s m e positive =>
    simp only [Float.Model.pack, Float.Model.unpack, UnpackedFloat.neg, UnpackedFloat.pack]
    split
    · cases s <;> rfl
    · split
      · exact unpack_packComponents_neg ..
      · exact unpack_packComponents_neg ..

theorem roundWithAccuracy_neg (s : Sign) (m : Nat) (e : Int) (accuracy : Accuracy) :
    roundWithAccuracy Format.binary64 (-s) m e accuracy =
      (roundWithAccuracy Format.binary64 s m e accuracy).neg := by
  unfold roundWithAccuracy
  dsimp only
  split <;> rfl

theorem mul_neg_unpacked (x y : UnpackedFloat) :
    UnpackedFloat.mul Format.binary64 x.neg y = (UnpackedFloat.mul Format.binary64 x y).neg := by
  cases x with
  | notANumber => cases y <;> rfl
  | infinity s => cases y <;> simp [UnpackedFloat.mul, UnpackedFloat.neg, neg_sign_mul]
  | zero s => cases y <;> simp [UnpackedFloat.mul, UnpackedFloat.neg, neg_sign_mul]
  | finite s m e positive =>
    cases y with
    | finite t m' e' positive' =>
      show roundWithAccuracy _ (-s * t) _ _ _ = _
      rw [neg_sign_mul]
      exact roundWithAccuracy_neg ..
    | _ => simp [UnpackedFloat.mul, UnpackedFloat.neg, neg_sign_mul]

theorem neg_mul (x y : Float) : -x * y = -(x * y) := by
  have parts : -x.toModel * y.toModel = -(x.toModel * y.toModel) := by
    change Float.Model.pack (UnpackedFloat.mul Format.binary64
        (Float.Model.pack x.toModel.unpack.neg).unpack y.toModel.unpack) =
      Float.Model.pack (Float.Model.pack
        (UnpackedFloat.mul Format.binary64 x.toModel.unpack y.toModel.unpack)).unpack.neg
    rw [unpack_pack_neg, pack_unpack, mul_neg_unpacked, ← unpack_pack_neg, pack_unpack]
  exact congrArg Float.ofModel parts

end Binary64

instance : SignedProducts Float where
  neg_mul := Binary64.neg_mul

end RowMajor

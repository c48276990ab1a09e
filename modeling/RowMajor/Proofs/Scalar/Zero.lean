import Mathlib
import RowMajor.Scalar.Elementary
import RowMajor.Proofs.Scalar.Exact

/-! Scalars whose zero is recognized and changes nothing when taken away. Exact scalars
are of this kind, and so are floats: a float is put together again from its parts. -/
namespace RowMajor

class LawfulZero (α : Type) [Scalar α] : Prop where
  isZero_zero : Scalar.isZero (0 : α) = true
  not_isZero {x : α} : Scalar.less 0 x = true → Scalar.isZero x = false
  sub_zero_product (x : α) : x - 0 * 0 * 0 = x

instance {α : Type} [ExactScalar α] : LawfulZero α where
  isZero_zero := (ExactScalar.isZero_iff 0).mpr rfl
  not_isZero {x} positive := by
    have nonzero : x ≠ 0 := ne_of_gt ((ExactScalar.less_iff 0 x).mp positive)
    rw [← Bool.not_eq_true, ExactScalar.isZero_iff]
    exact nonzero
  sub_zero_product x := by rw [mul_zero, sub_zero]

namespace Binary64
open Float.Model UnpackedFloat

theorem toBitVec_ofBitVec (b : BitVec 1) : (Sign.ofBitVec b).toBitVec = b := by
  revert b
  decide

theorem packComponents_parts (b : BitVec Format.binary64.numBits) :
    packComponents Format.binary64 (Sign.ofBitVec (unpackSign b)) (unpackExponent b)
      (unpackMantissa b) = b := by
  rw [packComponents, toBitVec_ofBitVec]
  apply BitVec.eq_of_getLsbD_eq
  intro i bound
  have small : i < 64 := bound
  simp only [unpackSign, unpackExponent, unpackMantissa, BitVec.getLsbD_append,
    BitVec.getLsbD_cast, BitVec.getLsbD_extractLsb]
  split
  · rename_i low
    rw [Nat.zero_add, decide_eq_true low, Bool.true_and]
  · split
    · rw [decide_eq_true (by omega), Bool.true_and]
      congr 1
      omega
    · rw [decide_eq_true (by omega), Bool.true_and]
      congr 1
      omega

theorem pack_subnormal (s : Sign) (m : BitVec 52) (positive : 0 < m.toNat) :
    UnpackedFloat.pack Format.binary64 (.finite s m.toNat (-1074) positive) =
      packComponents Format.binary64 s 0#_ m := by
  have short : m.toNat.log2 < 52 := (Nat.log2_lt (Nat.ne_of_gt positive)).mpr m.isLt
  have few : ¬ m.toNat.log2 + 1 = Format.binary64.mantissaBits := by
    have : Format.binary64.mantissaBits = 53 := rfl
    omega
  unfold UnpackedFloat.pack
  dsimp only
  rw [if_neg (by decide), if_neg few, BitVec.ofNat_toNat, BitVec.setWidth_eq]

/-- The leading bit of a normal mantissa is not stored. -/
theorem pack_normal (s : Sign) (e : BitVec 11) (m : BitVec 52) (finite : e ≠ -1#_)
    (positive : 0 < (1#1 ++ m).toNat) :
    UnpackedFloat.pack Format.binary64
      (.finite s (1#1 ++ m).toNat ((e.toNat : Int) - 1075) positive) =
      packComponents Format.binary64 s e m := by
  have value : (1#1 ++ m).toNat = 2 ^ 52 + m.toNat := by
    rw [BitVec.toNat_append, ← Nat.shiftLeft_add_eq_or_of_lt m.isLt]
    rfl
  have bits : (1#1 ++ m).toNat.log2 = 52 := by
    have := m.isLt
    rw [Nat.log2_eq_iff (by omega)]
    omega
  have below : e.toNat + 1 < 2 ^ 11 := by
    have := e.isLt
    have : e.toNat ≠ 2047 := fun same => finite (BitVec.eq_of_toNat_eq same)
    omega
  have biased : ((e.toNat : Int) - 1075 + Format.binary64.exponentBias +
      Format.binary64.mantissaBitsWithoutImplicit).toNat = e.toNat := by
    have : (Format.binary64.exponentBias : Int) = 1023 := rfl
    have : (Format.binary64.mantissaBitsWithoutImplicit : Int) = 52 := rfl
    omega
  unfold UnpackedFloat.pack
  dsimp only
  rw [biased, if_neg (Nat.not_le.mpr below), if_pos (by rw [bits]; rfl)]
  congr 1
  · rw [BitVec.ofNat_toNat, BitVec.setWidth_eq]
  · apply BitVec.eq_of_toNat_eq
    rw [BitVec.toNat_ofNat, value, Nat.add_mod_left, Nat.mod_eq_of_lt m.isLt]

theorem pack_unpack_bits {b : BitVec Format.binary64.numBits} (valid : Format.binary64.Valid b) :
    UnpackedFloat.pack Format.binary64 (UnpackedFloat.unpack Format.binary64 b) = b := by
  have parts := packComponents_parts b
  unfold UnpackedFloat.unpack
  dsimp only
  split
  · rename_i top
    split
    · rename_i none
      rw [top, none] at parts
      exact parts
    · -- Only one pattern stands for what is not a number.
      rename_i some
      exact (valid.eq_packedNaN top some).symm
  · rename_i finite
    split
    · rename_i bottom
      split
      · rename_i none
        rw [bottom, none] at parts
        exact parts
      · rw [bottom] at parts ⊢
        exact (pack_subnormal _ _ _).trans parts
    · exact (pack_normal _ _ _ finite _).trans parts

theorem pack_unpack (x : Float.Model) : Float.Model.pack x.unpack = x := by
  obtain ⟨bits, valid⟩ := x
  have same := pack_unpack_bits valid
  simp only [Float.Model.pack, Float.Model.unpack, same]

/-- Every float stays as it is, a negative zero too. -/
theorem sub_zero_unpacked (x : UnpackedFloat) :
    UnpackedFloat.sub Format.binary64 x (.zero .positive) = x := by
  cases x with
  | zero s => cases s <;> rfl
  | _ => rfl

theorem sub_zero (x : Float) : x - 0 = x := by
  have parts : x.toModel - (0 : Float).toModel = x.toModel := by
    change Float.Model.pack (UnpackedFloat.sub Format.binary64 x.toModel.unpack
      (0 : Float).toModel.unpack) = x.toModel
    rw [show (0 : Float).toModel.unpack = .zero .positive from rfl, sub_zero_unpacked, pack_unpack]
  exact congrArg Float.ofModel parts

theorem not_beq_zero_unpacked {x : UnpackedFloat}
    (positive : UnpackedFloat.lt (.zero .positive) x = true) :
    UnpackedFloat.beq x (.zero .positive) = false := by
  cases x with
  | zero s => cases positive
  | notANumber => rfl
  | infinity s => cases s <;> rfl
  | finite s _ _ _ => cases s <;> rfl

end Binary64

instance : LawfulZero Float where
  isZero_zero := by decide +kernel
  not_isZero {x} positive := by
    have less : (0 : Float).toModel < x.toModel := of_decide_eq_true (of_decide_eq_true positive)
    have above : Float.Model.UnpackedFloat.lt (.zero .positive) x.toModel.unpack = true := less
    exact Binary64.not_beq_zero_unpacked above
  sub_zero_product x := by
    have zero : (0 : Float) * 0 * 0 = 0 := by decide +kernel
    exact (congrArg (x - ·) zero).trans (Binary64.sub_zero x)

end RowMajor

import Mathlib
import RowMajor.Scalar.Elementary

/-! Scalars on which a zero leaves its trace. Nothing over a zero is finite, and no product
with a zero becomes a number other than zero again. Floats are of this kind, whatever the sign
of the zero. -/
namespace RowMajor
open Elementary (isNaN isInf)

class TracesZero (α : Type) [Elementary α] : Prop where
  div_zero (x : α) {y : α} : Scalar.isZero y = true → isInf (x / y) = true ∨ isNaN (x / y) = true
  mul_zero (x : α) {y : α} :
    Scalar.isZero y = true → Scalar.isZero (x * y) = true ∨ isNaN (x * y) = true
  zero_mul {x : α} (y : α) :
    Scalar.isZero x = true → Scalar.isZero (x * y) = true ∨ isNaN (x * y) = true
  nan_mul {x : α} (y : α) : isNaN x = true → isNaN (x * y) = true

namespace Binary64
open Float.Model UnpackedFloat

theorem unpack_pack_zero (s : Sign) : (Float.Model.pack (.zero s)).unpack = .zero s := by
  cases s <;> rfl

theorem unpack_pack_infinity (s : Sign) :
    (Float.Model.pack (.infinity s)).unpack = .infinity s := by
  cases s <;> rfl

theorem unpack_pack_notANumber : (Float.Model.pack .notANumber).unpack = .notANumber := rfl

theorem beq_zero_iff {x : UnpackedFloat} :
    UnpackedFloat.beq x (.zero .positive) = true ↔ ∃ s, x = .zero s := by
  constructor
  · intro same
    cases x with
    | zero s => exact ⟨s, rfl⟩
    | notANumber => cases same
    | infinity s => cases s <;> cases same
    | finite s _ _ _ => cases s <;> cases same
  · rintro ⟨s, rfl⟩
    rfl

theorem isZero_iff {x : Float} : Scalar.isZero x = true ↔ ∃ s, x.toModel.unpack = .zero s :=
  beq_zero_iff

theorem isNaN_iff {x : Float} : x.isNaN = true ↔ x.toModel.unpack = .notANumber := by
  change x.toModel.unpack.isNaN = true ↔ _
  cases x.toModel.unpack <;> simp [UnpackedFloat.isNaN]

theorem isInf_iff {x : Float} : x.isInf = true ↔ ∃ s, x.toModel.unpack = .infinity s := by
  change x.toModel.unpack.isInf = true ↔ _
  cases x.toModel.unpack <;> simp [UnpackedFloat.isInf]

/-- The parts of a product are those of the rounded product of the parts. -/
theorem unpack_mul (x y : Float) : (x * y).toModel.unpack =
    (Float.Model.pack
      (UnpackedFloat.mul Format.binary64 x.toModel.unpack y.toModel.unpack)).unpack :=
  rfl

/-- There is only one value that is no number, so that this holds without exception. -/
protected theorem mul_comm (x y : Float) : x * y = y * x := by
  have signs (s t : Sign) : s * t = t * s := by
    cases s <;> cases t <;> rfl
  have parts (x y : UnpackedFloat) :
      UnpackedFloat.mul Format.binary64 x y = UnpackedFloat.mul Format.binary64 y x := by
    cases x <;> cases y <;>
      simp only [UnpackedFloat.mul, signs, Nat.mul_comm, Int.add_comm]
  exact congrArg (fun z => Float.ofModel (Float.Model.pack z))
    (parts x.toModel.unpack y.toModel.unpack)

theorem unpack_div (x y : Float) : (x / y).toModel.unpack =
    (Float.Model.pack
      (UnpackedFloat.div Format.binary64 x.toModel.unpack y.toModel.unpack)).unpack :=
  rfl

theorem isZero_mul_or {y : Float} (x : Float) (zero : Scalar.isZero y = true) :
    Scalar.isZero (x * y) = true ∨ (x * y).isNaN = true := by
  obtain ⟨t, parts⟩ := isZero_iff.mp zero
  rw [isZero_iff, isNaN_iff, unpack_mul, parts]
  cases x.toModel.unpack with
  | infinity s => exact .inr unpack_pack_notANumber
  | notANumber => exact .inr unpack_pack_notANumber
  | zero s => exact .inl ⟨_, unpack_pack_zero _⟩
  | finite s m e positive => exact .inl ⟨_, unpack_pack_zero _⟩

end Binary64

open Binary64 in
instance : TracesZero Float where
  div_zero x {y} zero := by
    obtain ⟨t, parts⟩ := isZero_iff.mp zero
    change (x / y).isInf = true ∨ (x / y).isNaN = true
    rw [isInf_iff, isNaN_iff, unpack_div, parts]
    cases x.toModel.unpack with
    | infinity s => exact .inl ⟨_, unpack_pack_infinity _⟩
    | notANumber => exact .inr unpack_pack_notANumber
    | zero s => exact .inr unpack_pack_notANumber
    | finite s m e positive => exact .inl ⟨_, unpack_pack_infinity _⟩
  mul_zero x _ zero := isZero_mul_or x zero
  zero_mul {x} y zero := by
    change Scalar.isZero (x * y) = true ∨ (x * y).isNaN = true
    rw [Binary64.mul_comm]
    exact isZero_mul_or y zero
  nan_mul {x} y none := by
    change (x * y).isNaN = true
    rw [isNaN_iff, unpack_mul, isNaN_iff.mp none]
    exact unpack_pack_notANumber

end RowMajor

import Mathlib
import RowMajor.Proofs.Scalar.Trace

/-! Scalars on which an invalid result is not lost. What is no number makes no number of
everything that is computed from it, a negative number has no root, and nothing brings back
what has gone to minus infinity. Floats are of this kind. -/
namespace RowMajor
open Elementary (isNaN isInf)

/-- Minus infinity or no number. -/
def Sunk {α : Type} [Elementary α] (x : α) : Prop :=
  (isInf x = true ∧ Scalar.less x 0 = true) ∨ isNaN x = true

/-- A number that is negative or zero, or none at all. -/
def NotPositive {α : Type} [Elementary α] (x : α) : Prop :=
  Scalar.less x 0 = true ∨ Scalar.isZero x = true ∨ isNaN x = true

class TracesInvalid (α : Type) [Elementary α] : Prop where
  nan_sub {x : α} (y : α) : isNaN x = true → isNaN (x - y) = true
  sub_nan (x : α) {y : α} : isNaN y = true → isNaN (x - y) = true
  nan_mul {x : α} (y : α) : isNaN x = true → isNaN (x * y) = true
  div_nan (x : α) {y : α} : isNaN y = true → isNaN (x / y) = true
  sqrt_nan {x : α} : isNaN x = true → isNaN (Scalar.sqrt x) = true
  sqrt_negative {x : α} : Scalar.less x 0 = true → isNaN (Scalar.sqrt x) = true
  sqrt_zero {x : α} : Scalar.isZero x = true → Scalar.isZero (Scalar.sqrt x) = true
  div_zero (x : α) {y : α} : Scalar.isZero y = true → isInf (x / y) = true ∨ isNaN (x / y) = true
  inf_mul_inf {x : α} : isInf x = true → isInf (x * x) = true ∧ Scalar.less 0 (x * x) = true
  sub_inf (x : α) {y : α} : isInf y = true → Scalar.less 0 y = true → Sunk (x - y)
  inf_sub {x : α} (y : α) : isInf x = true → Scalar.less x 0 = true → Sunk (x - y)
  /-- How comparisons with zero go together. -/
  positive_iff {x : α} : Scalar.less 0 x = true ↔ ¬ NotPositive x

namespace Sunk
variable {α : Type} [Elementary α] [TracesInvalid α] {x : α}

theorem sub (h : Sunk x) (y : α) : Sunk (x - y) := by
  rcases h with ⟨infinite, negative⟩ | undefined
  · exact TracesInvalid.inf_sub y infinite negative
  · exact .inr (TracesInvalid.nan_sub y undefined)

theorem isNaN_sqrt (h : Sunk x) : isNaN (Scalar.sqrt x) = true := by
  rcases h with ⟨_, negative⟩ | undefined
  · exact TracesInvalid.sqrt_negative negative
  · exact TracesInvalid.sqrt_nan undefined

end Sunk

namespace NotPositive
variable {α : Type} [Elementary α] {x : α}

theorem of_invalid (h : isNaN x = true ∨ Scalar.isZero x = true) : NotPositive x :=
  .inr h.symm

theorem sqrt [TracesInvalid α] (h : NotPositive x) :
    isNaN (Scalar.sqrt x) = true ∨ Scalar.isZero (Scalar.sqrt x) = true := by
  rcases h with negative | zero | undefined
  · exact .inl (TracesInvalid.sqrt_negative negative)
  · exact .inr (TracesInvalid.sqrt_zero zero)
  · exact .inl (TracesInvalid.sqrt_nan undefined)

end NotPositive

/-- Infinities of both signs have the same square. -/
theorem sunk_sub_square {α : Type} [Elementary α] [TracesInvalid α] (x : α) {y : α}
    (h : isInf y = true ∨ isNaN y = true) : Sunk (x - y * y) := by
  rcases h with infinite | undefined
  · obtain ⟨square, positive⟩ := TracesInvalid.inf_mul_inf infinite
    exact TracesInvalid.sub_inf x square positive
  · exact .inr (TracesInvalid.sub_nan x (TracesInvalid.nan_mul y undefined))

namespace Binary64
open Float.Model UnpackedFloat

theorem unpack_sub (x y : Float) : (x - y).toModel.unpack =
    (Float.Model.pack
      (UnpackedFloat.sub Format.binary64 x.toModel.unpack y.toModel.unpack)).unpack :=
  rfl

theorem unpack_sqrt (x : Float) : x.sqrt.toModel.unpack =
    (Float.Model.pack (UnpackedFloat.sqrt Format.binary64 x.toModel.unpack)).unpack :=
  rfl

/-- What lies on this side of zero: the infinity of the sign and the finite numbers. -/
def Signed (s : Sign) (x : UnpackedFloat) : Prop :=
  x = .infinity s ∨ ∃ m e positive, x = .finite s m e positive

theorem Signed.sign_eq {s t : Sign} (h : Signed s (.infinity t)) : t = s := by
  simpa [Signed] using h

theorem signed_iff (x : UnpackedFloat) :
    (UnpackedFloat.lt x (.zero .positive) = true ↔ Signed .negative x) ∧
      (UnpackedFloat.lt (.zero .positive) x = true ↔ Signed .positive x) := by
  unfold Signed UnpackedFloat.lt
  cases x with
  | infinity s => cases s <;> simp [UnpackedFloat.compare]
  | notANumber => simp [UnpackedFloat.compare]
  | zero s => simp [UnpackedFloat.compare]
  | finite s m e positive => cases s <;> simp [UnpackedFloat.compare, positive]

theorem negative_iff {x : Float} :
    Scalar.less x 0 = true ↔ Signed .negative x.toModel.unpack := by
  rw [← (signed_iff _).1]
  exact (decide_eq_true_iff (p := x < 0)).trans
    (decide_eq_true_iff (p := x.toModel < (0 : Float).toModel))

theorem positive_iff {x : Float} :
    Scalar.less 0 x = true ↔ Signed .positive x.toModel.unpack := by
  rw [← (signed_iff _).2]
  exact (decide_eq_true_iff (p := 0 < x)).trans
    (decide_eq_true_iff (p := (0 : Float).toModel < x.toModel))

theorem sunk_iff {x : Float} : Sunk x ↔
    x.toModel.unpack = .infinity .negative ∨ x.toModel.unpack = .notANumber := by
  have infinite : Elementary.isInf x = true ↔ ∃ s, x.toModel.unpack = .infinity s := isInf_iff
  have undefined : Elementary.isNaN x = true ↔ x.toModel.unpack = .notANumber := isNaN_iff
  rw [Sunk, infinite, undefined, negative_iff, Signed]
  cases x.toModel.unpack <;> simp

end Binary64

open Binary64 Float.Model in
instance : TracesInvalid Float where
  nan_sub {x} y undefined := by
    change (x - y).isNaN = true
    rw [isNaN_iff, unpack_sub, isNaN_iff.mp undefined]
    exact unpack_pack_notANumber
  sub_nan x {y} undefined := by
    change (x - y).isNaN = true
    rw [isNaN_iff, unpack_sub, isNaN_iff.mp undefined]
    cases x.toModel.unpack <;> exact unpack_pack_notANumber
  nan_mul y undefined := TracesZero.nan_mul y undefined
  div_nan x {y} undefined := by
    change (x / y).isNaN = true
    rw [isNaN_iff, unpack_div, isNaN_iff.mp undefined]
    cases x.toModel.unpack <;> exact unpack_pack_notANumber
  sqrt_nan {x} undefined := by
    change x.sqrt.isNaN = true
    rw [isNaN_iff, unpack_sqrt, isNaN_iff.mp undefined]
    exact unpack_pack_notANumber
  sqrt_negative {x} negative := by
    change x.sqrt.isNaN = true
    rw [isNaN_iff, unpack_sqrt]
    rcases negative_iff.mp negative with infinite | ⟨m, e, positive, finite⟩
    · rw [infinite]
      exact unpack_pack_notANumber
    · rw [finite]
      exact unpack_pack_notANumber
  sqrt_zero {x} zero := by
    obtain ⟨s, parts⟩ := isZero_iff.mp zero
    change Scalar.isZero x.sqrt = true
    rw [isZero_iff, unpack_sqrt, parts]
    exact ⟨s, unpack_pack_zero s⟩
  div_zero x _ zero := TracesZero.div_zero x zero
  inf_mul_inf {x} infinite := by
    obtain ⟨s, parts⟩ := isInf_iff.mp infinite
    have square : (x * x).toModel.unpack = .infinity .positive := by
      rw [unpack_mul, parts]
      cases s <;> rfl
    exact ⟨isInf_iff.mpr ⟨_, square⟩, positive_iff.mpr (.inl square)⟩
  sub_inf x {y} infinite positive := by
    obtain ⟨s, parts⟩ := isInf_iff.mp infinite
    obtain rfl : s = .positive := Signed.sign_eq (parts ▸ positive_iff.mp positive)
    rw [sunk_iff, unpack_sub, parts]
    cases x.toModel.unpack with
    | infinity t =>
        cases t with
        | positive => exact .inr unpack_pack_notANumber
        | negative => exact .inl (unpack_pack_infinity _)
    | notANumber => exact .inr unpack_pack_notANumber
    | zero t => exact .inl (unpack_pack_infinity _)
    | finite t m e p => exact .inl (unpack_pack_infinity _)
  inf_sub {x} y infinite negative := by
    obtain ⟨s, parts⟩ := isInf_iff.mp infinite
    obtain rfl : s = .negative := Signed.sign_eq (parts ▸ negative_iff.mp negative)
    rw [sunk_iff, unpack_sub, parts]
    cases y.toModel.unpack with
    | infinity t =>
        cases t with
        | positive => exact .inl (unpack_pack_infinity _)
        | negative => exact .inr unpack_pack_notANumber
    | notANumber => exact .inr unpack_pack_notANumber
    | zero t => exact .inl (unpack_pack_infinity _)
    | finite t m e p => exact .inl (unpack_pack_infinity _)
  positive_iff {x} := by
    have undefined : Elementary.isNaN x = true ↔ x.toModel.unpack = .notANumber := isNaN_iff
    rw [Binary64.positive_iff, NotPositive, negative_iff, isZero_iff, undefined]
    unfold Signed
    cases x.toModel.unpack with
    | infinity s => cases s <;> simp
    | notANumber => simp
    | zero s => simp
    | finite s m e p => cases s <;> simp [p]

end RowMajor

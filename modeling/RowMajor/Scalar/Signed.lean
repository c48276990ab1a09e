import RowMajor.Scalar.Elementary
import RowMajor.Decimal.Style

/-! Floats that know the sign of what is not a number. An operation hands on the
sign of its first operand that is not a number; an operation that is invalid on
numbers gives a negative result. -/
namespace RowMajor
open Elementary (isNaN)

/-- The flag is the sign of a value that is not a number. Do not read it of others. -/
structure Signed (α : Type) where
  value : α
  minus : Bool

namespace Signed
variable {α : Type}

def of (value : α) : Signed α :=
  ⟨value, false⟩

instance [BEq α] : BEq (Signed α) := ⟨fun x y => x.value == y.value⟩

instance [Decimal.NumberText α] : Decimal.NumberText (Signed α) where
  display x := Decimal.NumberText.display x.value
  diagnostic x := Decimal.NumberText.diagnostic x.value

variable [Elementary α]

def map (f : α → α) (x : Signed α) : Signed α :=
  ⟨f x.value, if isNaN x.value then x.minus else true⟩

def zipWith (f : α → α → α) (x y : Signed α) : Signed α :=
  ⟨f x.value y.value,
    if isNaN x.value then x.minus else if isNaN y.value then y.minus else true⟩

instance : Scalar (Signed α) where
  zero := of 0
  one := of 1
  add := zipWith (· + ·)
  sub := zipWith (· - ·)
  mul := zipWith (· * ·)
  div := zipWith (· / ·)
  neg x := ⟨-x.value, !x.minus⟩
  abs x := of (Scalar.abs x.value)
  sqrt := map Scalar.sqrt
  less x y := Scalar.less x.value y.value
  isZero x := Scalar.isZero x.value
  isFinite x := Scalar.isFinite x.value

instance : Elementary (Signed α) where
  exp := map Elementary.exp
  ln := map Elementary.ln
  pow := zipWith Elementary.pow
  sin := map Elementary.sin
  cos := map Elementary.cos
  atan2 := zipWith Elementary.atan2
  hypot := zipWith Elementary.hypot
  ofFloat x := of (Elementary.ofFloat x)
  pi := of Elementary.pi
  e := of Elementary.e
  nan := of Elementary.nan
  isNaN x := isNaN x.value
  isInf x := Elementary.isInf x.value
  negative x := if isNaN x.value then x.minus else Elementary.negative x.value

end Signed
end RowMajor

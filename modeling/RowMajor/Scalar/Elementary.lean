import RowMajor.Scalar
import RowMajor.Decimal.Binary

/-! Floats of both widths as scalars, and the elementary functions on them. -/
namespace RowMajor

class Elementary (α : Type) extends Scalar α where
  exp : α → α
  ln : α → α
  pow : α → α → α
  sin : α → α
  cos : α → α
  atan2 : α → α → α
  hypot : α → α → α
  ofFloat : Float → α
  pi : α
  e : α
  nan : α
  isNaN : α → Bool
  isInf : α → Bool
  /-- Whether the sign bit is set. Plain floats show none on what is not a number. -/
  negative : α → Bool

namespace Decimal

/-- The magnitude of the float nearest to the length of the vector `(x, y)`. The
square root is taken with two bits to spare; a remainder sets the last of them. -/
def Format.length (format : Format) (x y : Binary) : Nat :=
  let low := min x.exponent y.exponent
  let a := x.mantissa <<< (x.exponent - low).toNat
  let b := y.mantissa <<< (y.exponent - low).toNat
  let square := a * a + b * b
  let extra := format.fractionBits + 4
  let scaled := square <<< (2 * extra)
  let root := natSqrt scaled
  let sticky := if root * root = scaled then 2 * root else 2 * root + 1
  format.nearest sticky (low - extra - 1)
where
  /-- The whole square root, by Newton's method from above. -/
  natSqrt (n : Nat) : Nat :=
    if n = 0 then 0 else descend n (n.log2 + 2) (1 <<< (n.log2 / 2 + 1))
  descend (n : Nat) : Nat → Nat → Nat
    | 0, guess => guess
    | fuel + 1, guess =>
      let next := (guess + n / guess) / 2
      if next < guess then descend n fuel next else guess

end Decimal

open Decimal (Binary binary32 binary64)

instance : Scalar Float where
  zero := 0
  one := 1
  abs := Float.abs
  sqrt := Float.sqrt
  less a b := a < b
  isZero a := a == 0
  isFinite := Float.isFinite

instance : Elementary Float where
  exp := Float.exp
  ln := Float.log
  pow := Float.pow
  sin := Float.sin
  cos := Float.cos
  atan2 := Float.atan2
  hypot x y :=
    if x.isInf || y.isInf then 1 / 0
    else if x.isNaN || y.isNaN then 0 / 0
    else
      let magnitude (z : Float) := Binary.ofBits binary64 z.toBits.toNat
      .ofBits (.ofNat (binary64.length (magnitude x) (magnitude y)))
  ofFloat := id
  pi := .ofBits 0x400921fb54442d18
  e := .ofBits 0x4005bf0a8b145769
  nan := 0 / 0
  isNaN := Float.isNaN
  isInf := Float.isInf
  negative x := !x.isNaN && x.toBits >>> 63 == 1

instance : Scalar Float32 where
  zero := 0
  one := 1
  abs := Float32.abs
  sqrt := Float32.sqrt
  less a b := a < b
  isZero a := a == 0
  isFinite := Float32.isFinite

instance : Elementary Float32 where
  exp := Float32.exp
  ln := Float32.log
  pow := Float32.pow
  sin := Float32.sin
  cos := Float32.cos
  atan2 := Float32.atan2
  hypot x y :=
    if x.isInf || y.isInf then 1 / 0
    else if x.isNaN || y.isNaN then 0 / 0
    else
      let magnitude (z : Float32) := Binary.ofBits binary32 z.toBits.toNat
      .ofBits (.ofNat (binary32.length (magnitude x) (magnitude y)))
  ofFloat := Float.toFloat32
  pi := .ofBits 0x40490fdb
  e := .ofBits 0x402df854
  nan := 0 / 0
  isNaN := Float32.isNaN
  isInf := Float32.isInf
  negative x := !x.isNaN && x.toBits >>> 31 == 1

end RowMajor

import RowMajor.Algebra.Named
import RowMajor.Decimal.Style
import RowMajor.Scalar.Elementary

/-! Complex numbers in Cartesian form, over floats of either width. -/
namespace RowMajor
open Scalar (isZero isFinite less)
open Elementary (isNaN isInf negative)

structure ComplexNumber (α : Type) where
  re : α
  im : α

namespace ComplexNumber
variable {α : Type} [Elementary α]

def ofReal (x : α) : ComplexNumber α := ⟨x, 0⟩

def i : ComplexNumber α := ⟨0, 1⟩

def add (z w : ComplexNumber α) : ComplexNumber α := ⟨z.re + w.re, z.im + w.im⟩

def sub (z w : ComplexNumber α) : ComplexNumber α := ⟨z.re - w.re, z.im - w.im⟩

def neg (z : ComplexNumber α) : ComplexNumber α := ⟨-z.re, -z.im⟩

def mul (z w : ComplexNumber α) : ComplexNumber α :=
  ⟨z.re * w.re - z.im * w.im, z.re * w.im + z.im * w.re⟩

def div (z w : ComplexNumber α) : ComplexNumber α :=
  let square := w.re * w.re + w.im * w.im
  ⟨(z.re * w.re + z.im * w.im) / square, (z.im * w.re - z.re * w.im) / square⟩

def scale (z : ComplexNumber α) (t : α) : ComplexNumber α := ⟨z.re * t, z.im * t⟩

def radius (z : ComplexNumber α) : α := Elementary.hypot z.re z.im

def angle (z : ComplexNumber α) : α := Elementary.atan2 z.im z.re

def ofPolar (radius angle : α) : ComplexNumber α :=
  ⟨radius * Elementary.cos angle, radius * Elementary.sin angle⟩

def ln (z : ComplexNumber α) : ComplexNumber α := ⟨Elementary.ln z.radius, z.angle⟩

def power (z : ComplexNumber α) (exponent : α) : ComplexNumber α :=
  if isZero exponent then ofReal 1
  else ofPolar (Elementary.pow z.radius exponent) (z.angle * exponent)

/-- Where the product of an infinite radius and a direction would be meaningless,
the limit along the real axis is taken. -/
def exp (z : ComplexNumber α) : ComplexNumber α :=
  let polar := ofPolar (Elementary.exp z.re) z.im
  if isInf z.re then
    if less z.re 0 then (if isFinite z.im then polar else ofReal 0)
    else if isZero z.im then z
    else if isFinite z.im then polar
    else ⟨z.re, Elementary.nan⟩
  else if isNaN z.re && isZero z.im then z
  else polar

/-- The root in the right half plane. On the axes it is found without angles. -/
def sqrt (z : ComplexNumber α) : ComplexNumber α :=
  let two : α := 1 + 1
  if isZero z.im then
    if negative z.re then
      let root := Scalar.sqrt (-z.re)
      ⟨0, if negative z.im then -root else root⟩
    else ⟨Scalar.sqrt z.re, z.im⟩
  else if isZero z.re then
    let root := Scalar.sqrt (Scalar.abs z.im / two)
    ⟨root, if negative z.im then -root else root⟩
  else ofPolar (Scalar.sqrt z.radius) (z.angle / two)

instance [BEq α] : BEq (ComplexNumber α) := ⟨fun z w => z.re == w.re && z.im == w.im⟩

/-- The sign between the parts is that of a comparison with zero, so a part that
is minus zero keeps its own sign behind a plus. -/
instance [Decimal.NumberText α] : Decimal.NumberText (ComplexNumber α) where
  display z :=
    let im :=
      if less z.im 0 then "-" ++ Decimal.NumberText.display (Scalar.abs z.im)
      else "+" ++ Decimal.NumberText.display z.im
    Decimal.NumberText.display z.re ++ im ++ "i"
  diagnostic z :=
    let re := Decimal.NumberText.diagnostic z.re
    let im := Decimal.NumberText.diagnostic z.im
    s!"Complex \x7b re: {re}, im: {im} \x7d"

end ComplexNumber

namespace ComplexField
variable {m : Type → Type} [Monad m] {α : Type} [Elementary α]

def fieldOps : FieldOps m (ComplexNumber α) where
  zero := .ofReal 0
  add left right := pure (left.add right)
  neg arg := pure arg.neg
  sub left right := pure (left.sub right)
  one := .ofReal 1
  multiply left right := pure (left.mul right)
  divide left right := pure (left.div right)
  scale arg value := pure (arg.scale (Elementary.ofFloat value))

def powerOps : PowerOps m (ComplexNumber α) where
  power arg exponent := pure (arg.power (Elementary.ofFloat exponent))
  sqrt arg := pure arg.sqrt

def exponentialOps : ExponentialOps m (ComplexNumber α) where
  exp arg := pure arg.exp
  ln arg := pure arg.ln

def constant? : String → Option (ComplexNumber α)
  | "i" => some .i
  | "pi" => some (.ofReal Elementary.pi)
  | "e" => some (.ofReal Elementary.e)
  | symbol => (fieldOps (m := Id)).constant? symbol

def algebra : ElementAlgebra m (ComplexNumber α) where
  name := "ComplexField"
  level := .field fieldOps
  powers := some powerOps
  exponentials := some exponentialOps
  constant? := constant?

end ComplexField
end RowMajor

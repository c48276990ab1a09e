import RowMajor.Algebra.Named
import RowMajor.Scalar.Elementary

/-! The field of floats of either width. Every operation has a result. -/
namespace RowMajor.RealField
variable {m : Type → Type} [Monad m] {α : Type} [Elementary α]

def fieldOps : FieldOps m α where
  zero := 0
  add left right := pure (left + right)
  neg arg := pure (-arg)
  sub left right := pure (left - right)
  one := 1
  multiply left right := pure (left * right)
  divide left right := pure (left / right)
  scale arg value := pure (arg * Elementary.ofFloat value)

def powerOps : PowerOps m α where
  power arg exponent := pure (Elementary.pow arg (Elementary.ofFloat exponent))
  sqrt arg := pure (Scalar.sqrt arg)

def exponentialOps : ExponentialOps m α where
  exp arg := pure (Elementary.exp arg)
  ln arg := pure (Elementary.ln arg)

def constant? : String → Option α
  | "pi" => some Elementary.pi
  | "e" => some Elementary.e
  | symbol => (fieldOps (m := Id)).constant? symbol

def algebra : ElementAlgebra m α where
  name := "RealField"
  level := .field fieldOps
  powers := some powerOps
  exponentials := some exponentialOps
  constant? := constant?

end RowMajor.RealField

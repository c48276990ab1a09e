/-! The operations on numbers that the matrix kernels use. No law is asked of
them, so that machine floats and exact fields are both scalars. -/
namespace RowMajor

class Scalar (α : Type) extends Zero α, One α, Add α, Sub α, Mul α, Div α, Neg α where
  abs : α → α
  sqrt : α → α
  less : α → α → Bool
  isZero : α → Bool
  isFinite : α → Bool

namespace Scalar
variable {α : Type} [Scalar α]

/-- Sums are taken from the left. They start at minus zero, the one float that
changes nothing when added. -/
def sum (terms : List α) : α :=
  terms.foldl (· + ·) (-0)

/-- The shorter list decides how many products are added. -/
def dot (x y : List α) : α :=
  sum (List.zipWith (· * ·) x y)

def norm (x : List α) : α :=
  sqrt (dot x x)

end Scalar
end RowMajor

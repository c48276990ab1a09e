import RowMajor.Fault
import RowMajor.Decimal.Style

/-! Refusals of operations on structures: shapes that do not fit, properties that
the data lack, and names unknown to the element algebra. -/
namespace RowMajor

inductive Error where
  | shapeMismatch (left right : List Nat)
  | rankMismatch (actual required : Nat)
  | bufferLength (required actual : Nat)
  | nonSquare (rows cols : Nat)
  | notSymmetric (epsilon : Float)
  | notConverged (component iterations : Nat)
  | lookup (cause : LookupError)

def shapeText (shape : List Nat) : String :=
  "[" ++ ", ".intercalate (shape.map toString) ++ "]"

def Error.message : Error → String
  | .shapeMismatch left right => s!"shape mismatch: {shapeText left} vs {shapeText right}"
  | .rankMismatch actual required => s!"rank mismatch: {actual} vs {required}"
  | .bufferLength required actual =>
    s!"buffer of length {actual} cannot hold {required} elements"
  | .nonSquare rows cols => s!"non-square matrix: rows={rows}, cols={cols}"
  | .notSymmetric epsilon =>
    s!"matrix is not symmetric within {Decimal.NumberText.display epsilon}"
  | .notConverged component iterations =>
    s!"singular component {component} did not converge after {iterations} iterations"
  | .lookup cause => cause.message

end RowMajor

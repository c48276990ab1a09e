import Mathlib
import RowMajor.Matrix.SingularValues
import RowMajor.Proofs.Matrix.Algebra
import RowMajor.Proofs.Matrix.Length

/-! The vectors and working copies of a decomposition in terms of algebra: images,
Gram matrices, and the matrix that a component takes off. -/
namespace RowMajor
open Matrix
variable {α : Type} [ExactScalar α] {n m k : Nat}

/-- What a component contributes to the matrix. -/
def Triplet.toMatrix (t : Triplet α n m) : Matrix (Fin n) (Fin m) α :=
  t.sigma • vecMulVec t.left.get t.right.get

namespace Mat

theorem get_apply (a : Mat α n m) (x : Vector α m) : (a.apply x).get = a.toMatrix *ᵥ x.get := by
  funext i
  rw [apply, get_ofFn, ExactScalar.dot_eq]
  simp only [get_row]
  rfl

theorem sum_finRange (f : Fin n → α) : Scalar.sum ((List.finRange n).map f) = ∑ i, f i := by
  rw [ExactScalar.sum_eq, ← List.ofFn_eq_map, List.sum_ofFn]

theorem get_applyTransposed (a : Mat α n m) (x : Vector α n) :
    (a.applyTransposed x).get = a.toMatrixᵀ *ᵥ x.get := by
  funext j
  rw [applyTransposed, get_ofFn, sum_finRange]
  rfl

theorem toMatrix_rowGram (a : Mat α n m) : a.rowGram.toMatrix = a.toMatrix * a.toMatrixᵀ := by
  ext i j
  rw [toMatrix_apply, rowGram, entry_ofFn, sum_finRange]
  rfl

theorem toMatrix_deflate (a : Mat α n m) (t : Triplet α n m) :
    (a.deflate t).toMatrix = a.toMatrix - t.toMatrix := by
  ext i j
  simp only [toMatrix_apply, deflate, entry_ofFn, Triplet.toMatrix,
    Matrix.sub_apply, Matrix.smul_apply, vecMulVec_apply, smul_eq_mul, mul_assoc]

end Mat
end RowMajor

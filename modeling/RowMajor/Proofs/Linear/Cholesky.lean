import Mathlib
import RowMajor.Proofs.Cholesky.Definite
import RowMajor.Proofs.Linear.Factor

/-! Factors of symmetric tensors. Only the lower triangle counts; all square roots are taken of
positive numbers exactly if the symmetric matrix with that triangle is positive definite, and
then the result is its root. -/
namespace RowMajor.Linear
open InPlace (Returns)
open Matrix
variable {n : Nat}

/-- The diagonal holds the roots of the radicands. -/
theorem choleskyInto_isLowerRoot {t x : Tensor ℝ} {a : Mat ℝ n n} (ht : t.Holds a)
    (hx : x.shape = [n, n]) :
    ∃ (x' : Tensor ℝ) (l : Mat ℝ n n), Returns (choleskyInto t) x () x' ∧ x'.Holds l ∧
      (∀ i, l.entry i i = √(a.radicand i)) ∧
      ((∀ i, 0 < a.radicand i) ↔ a.fromLower.PosDef) ∧
      (a.fromLower.PosDef → Mat.IsLowerRoot a.fromLower l ∧
        (a.toMatrix.IsSymm → l.toMatrix * l.toMatrixᵀ = a.toMatrix)) := by
  obtain ⟨x', written, hx'⟩ := choleskyInto_returns ht hx
  refine ⟨x', _, written, hx', fun i => ?_, Mat.radicand_pos_iff, fun definite => ?_⟩
  · rw [Mat.radicand_eq]
    exact (a.hasRow_cholesky i).diagonal
  · have root := Mat.isLowerRoot_cholesky (Mat.radicand_pos_iff.mpr definite)
    exact ⟨root, fun symmetric => root.product.trans (Mat.fromLower_eq_toMatrix symmetric)⟩

noncomputable def definiteTensor : Tensor ℝ :=
  ⟨lateExchange.layout, (([4, 2, 2, 2, 5, 7, 2, 7, 11] : List ℤ).map Int.cast).toArray, 0,
    by decide⟩

theorem definiteTensor_toMatrix : (definiteTensor.matrix (rfl : _ = [3, 3])).toMatrix =
    (Int.castRingHom ℝ).mapMatrix !![4, 2, 2; 2, 5, 7; 2, 7, 11] := by
  ext i j
  fin_cases i <;> fin_cases j <;> rfl

theorem definiteTensor_isSymm : (definiteTensor.matrix (rfl : _ = [3, 3])).toMatrix.IsSymm := by
  rw [definiteTensor_toMatrix]
  exact IsSymm.map (by decide) _

theorem definiteTensor_posDef : (definiteTensor.matrix (rfl : _ = [3, 3])).fromLower.PosDef := by
  let root : Matrix (Fin 3) (Fin 3) ℤ := !![2, 0, 0; 1, 2, 0; 1, 3, 1]
  let real := (Int.castRingHom ℝ).mapMatrix root
  have product : root * rootᵀ = !![4, 2, 2; 2, 5, 7; 2, 7, 11] := by decide
  have unit : IsUnit real := by
    rw [isUnit_iff_isUnit_det, isUnit_iff_ne_zero, ← RingHom.map_det]
    exact Int.cast_ne_zero.mpr (by decide +kernel)
  have square : (Int.castRingHom ℝ).mapMatrix (root * rootᵀ) = real * realᴴ := by
    rw [map_mul, conjTranspose_eq_transpose_of_trivial]
    rfl
  rw [Mat.fromLower_eq_toMatrix definiteTensor_isSymm, definiteTensor_toMatrix, ← product, square]
  exact .mul_conjTranspose_self real (vecMul_injective_of_isUnit unit)

theorem choleskyInto_isLowerRoot_definiteTensor :
    ∃ (x : Tensor ℝ) (l : Mat ℝ 3 3),
      Returns (choleskyInto definiteTensor) definiteTensor () x ∧ x.Holds l ∧
      (∀ i, 0 < (definiteTensor.matrix (rfl : _ = [3, 3])).radicand i) ∧
      Mat.IsLowerRoot (definiteTensor.matrix (rfl : _ = [3, 3])).fromLower l ∧
      l.toMatrix * l.toMatrixᵀ = (definiteTensor.matrix (rfl : _ = [3, 3])).toMatrix := by
  obtain ⟨x, l, written, hx, _, positive, root⟩ :=
    choleskyInto_isLowerRoot (t := definiteTensor) (x := definiteTensor) ⟨rfl, rfl⟩ rfl
  have definite := definiteTensor_posDef
  exact ⟨x, l, written, hx, positive.mpr definite, (root definite).1,
    (root definite).2 definiteTensor_isSymm⟩

end RowMajor.Linear

import Mathlib
import RowMajor.Proofs.Linear.Factor
import RowMajor.Proofs.Orthogonal.Factors

/-! Orthogonal factors of tensors. Independent columns leave no length zero, and then the two
results are an orthogonal and an upper triangular factor. -/
namespace RowMajor.Linear
open InPlace (Returns)
variable {n : Nat}

theorem orthogonalInto_factors {t q r : Tensor ℝ} {a : Mat ℝ n n} (ht : t.Holds a)
    (hq : q.shape = [n, n]) (hr : r.shape = [n, n])
    (independent : LinearIndependent ℝ a.toMatrix.col) :
    (∀ j, Orthogonal.divisor a j ≠ 0) ∧
      ∃ (q' r' : Tensor ℝ) (mq mr : Mat ℝ n n), Returns (orthogonalInto t) (q, r) () (q', r') ∧
        q'.Holds mq ∧ r'.Holds mr ∧ Orthogonal.Factors a mq mr := by
  refine ⟨fun j => ne_of_gt (Orthogonal.divisor_pos independent j), ?_⟩
  obtain ⟨q', r', written, hq', hr'⟩ := orthogonalInto_returns ht hq hr
  exact ⟨q', r', _, _, written, hq', hr', Orthogonal.factors_run independent⟩

noncomputable def skewColumns : Tensor ℝ :=
  ⟨lateExchange.layout, (([12, -51, 4, 6, 167, -68, -4, 24, -41] : List ℤ).map Int.cast).toArray, 0,
    by decide⟩

theorem skewColumns_independent :
    LinearIndependent ℝ (skewColumns.matrix (rfl : _ = [3, 3])).toMatrix.col := by
  have entries : (skewColumns.matrix (rfl : _ = [3, 3])).toMatrix =
      (Int.castRingHom ℝ).mapMatrix !![12, -51, 4; 6, 167, -68; -4, 24, -41] := by
    ext i j
    fin_cases i <;> fin_cases j <;> rfl
  rw [Matrix.linearIndependent_cols_iff_isUnit, entries, Matrix.isUnit_iff_isUnit_det,
    isUnit_iff_ne_zero, ← RingHom.map_det]
  exact Int.cast_ne_zero.mpr (by decide +kernel)

theorem orthogonalInto_factors_skewColumns :
    (∀ j, Orthogonal.divisor (skewColumns.matrix (rfl : _ = [3, 3])) j ≠ 0) ∧
      ∃ (q r : Tensor ℝ) (mq mr : Mat ℝ 3 3),
        Returns (orthogonalInto skewColumns) (skewColumns, skewColumns) () (q, r) ∧
        q.Holds mq ∧ r.Holds mr ∧ Orthogonal.Factors (skewColumns.matrix rfl) mq mr :=
  orthogonalInto_factors ⟨rfl, rfl⟩ rfl rfl skewColumns_independent

end RowMajor.Linear

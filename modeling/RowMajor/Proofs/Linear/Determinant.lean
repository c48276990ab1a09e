import Mathlib
import RowMajor.Proofs.Linear.Factor

/-! Determinants of tensors. The product of the pivots, with the sign that the number of
exchanges gives it, is the sum over all permutations that defines the determinant. -/
namespace RowMajor
variable {α : Type} [ExactScalar α] {n : Nat}

/-- The parity of the exchanges is that of the row order. -/
theorem Pivots.Follows.sign_eq_sign {pivots : Pivots n} {σ : Equiv.Perm (Fin n)}
    (h : pivots.Follows σ) : (pivots.sign : α) = (Equiv.Perm.sign σ : α) := by
  rw [h.sign_eq_ite]
  split
  · rename_i plus
    rw [plus, Units.val_one, Int.cast_one]
  · rename_i minus
    rw [(Int.units_eq_one_or _).resolve_left minus, Units.val_neg, Units.val_one, Int.cast_neg,
      Int.cast_one]

theorem Mat.determinant_eq (lu : Mat α n n) (pivots : Pivots n) :
    lu.determinant pivots = pivots.sign * ∏ i, lu.entry i i :=
  ExactScalar.foldl_mul (fun i => lu.entry i i) pivots.sign

namespace Elimination

/-- The sign of the row order occurs twice, once from the pivots and once from the
exchanged rows, and cancels. -/
theorem determinant_run (a : Mat α n n) :
    (run a).matrix.determinant (run a).pivots = a.toMatrix.det := by
  obtain ⟨σ, h⟩ := follows_run a
  have square : (Equiv.Perm.sign σ : α) * (Equiv.Perm.sign σ : α) = 1 := by
    rcases Int.units_eq_one_or (Equiv.Perm.sign σ) with plus | minus
    · simp [plus]
    · simp [minus]
  rw [Mat.determinant_eq, h.sign_eq_sign, prod_diagonal_run a h, ← mul_assoc, square, one_mul]

/-- A matrix of size one or none has nothing to clear. -/
theorem dividesByNonzero_of_le_one {a : Mat α n n} (small : n ≤ 1) : DividesByNonzero a := by
  intro i more
  exact absurd more (by omega)

end Elimination

namespace Linear
open InPlace (Returns)

/-- The determinant of the factored tensor is the determinant of the matrix that was
factored, and tells whether that matrix is invertible. -/
theorem determinant_isLeibnizSum {t : Tensor α} {a : Mat α n n} (ht : t.Holds a) :
    (IsUnit a.toMatrix → Elimination.DividesByNonzero a) ∧
      (n = 0 → Elimination.DividesByNonzero a) ∧
      (Elimination.DividesByNonzero a →
        ∃ (pivots : Pivots n) (lu : Tensor α) (d : α),
          Returns factorInPlace t ⟨n, pivots⟩ lu ∧ determinant lu pivots = .ok d ∧
          d = ∑ σ : Equiv.Perm (Fin n), (Equiv.Perm.sign σ : α) * ∏ i, a.entry (σ i) i ∧
          (d ≠ 0 ↔ IsUnit a.toMatrix)) := by
  refine ⟨Elimination.dividesByNonzero_of_isUnit, fun none => ?_, fun _ => ?_⟩
  · exact Elimination.dividesByNonzero_of_le_one (none ▸ Nat.zero_le 1)
  obtain ⟨lu, factored, hlu⟩ := factorInPlace_returns ht
  have found := determinant_eq_ok (Elimination.run a).pivots hlu
  rw [Elimination.determinant_run] at found
  refine ⟨_, lu, _, factored, found, Matrix.det_apply' _, ?_⟩
  rw [Matrix.isUnit_iff_isUnit_det, isUnit_iff_ne_zero]

theorem determinant_isLeibnizSum_lateExchange :
    ∃ (pivots : Pivots 3) (lu : Tensor ℚ) (d : ℚ),
      Returns factorInPlace lateExchange ⟨3, pivots⟩ lu ∧ determinant lu pivots = .ok d ∧
      d = ∑ σ : Equiv.Perm (Fin 3), (Equiv.Perm.sign σ : ℚ) *
        ∏ i, (lateExchange.matrix rfl).entry (σ i) i ∧
      (d ≠ 0 ↔ IsUnit (lateExchange.matrix (rfl : _ = [3, 3])).toMatrix) :=
  (determinant_isLeibnizSum ⟨rfl, rfl⟩).2.2 lateExchange_divides

end Linear
end RowMajor

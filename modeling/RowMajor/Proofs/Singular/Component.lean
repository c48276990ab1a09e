import Mathlib
import RowMajor.Proofs.Singular.Kernel

/-! A component of a matrix, with its left vector in the range of the matrix, and what
is left of the matrix without it. -/
namespace RowMajor
open Matrix
variable {n m : Nat}

theorem ne_zero_of_unit {x : Fin n → ℝ} (unit : x ⬝ᵥ x = 1) : x ≠ 0 := by
  rintro rfl
  rw [zero_dotProduct] at unit
  exact zero_ne_one unit

/-- Directions have unit length. Without weight there are no directions. -/
structure Triplet.Normal (t : Triplet ℝ n m) : Prop where
  nonneg : 0 ≤ t.sigma
  unit_left : t.sigma ≠ 0 → t.left.get ⬝ᵥ t.left.get = 1
  unit_right : t.sigma ≠ 0 → t.right.get ⬝ᵥ t.right.get = 1
  settled_left : t.sigma = 0 → t.left.get = 0
  settled_right : t.sigma = 0 → t.right.get = 0

/-- The left vector lies in the range of the matrix, the right one is its image over
the weight. -/
structure Triplet.IsComponent (t : Triplet ℝ n m) (w : Matrix (Fin n) (Fin m) ℝ) : Prop
    extends t.Normal where
  image : wᵀ *ᵥ t.left.get = t.sigma • t.right.get
  range : t.sigma ≠ 0 → ∃ y, t.left.get = w *ᵥ y

theorem Triplet.toMatrix_settled {t : Triplet ℝ n m} (weightless : t.sigma = 0) :
    t.toMatrix = 0 := by
  rw [toMatrix, weightless, zero_smul]

namespace Triplet.IsComponent
variable {t : Triplet ℝ n m} {w : Matrix (Fin n) (Fin m) ℝ}

theorem toMatrix_eq (h : t.IsComponent w) :
    t.toMatrix = vecMulVec t.left.get (wᵀ *ᵥ t.left.get) := by
  rw [h.image, vecMulVec_smul, toMatrix]

/-- The rest maps a vector as the matrix does, up to its part along the left vector. -/
theorem rest_transpose_mulVec (h : t.IsComponent w) (z : Fin n → ℝ) :
    (w - t.toMatrix)ᵀ *ᵥ z = wᵀ *ᵥ z - (t.left.get ⬝ᵥ z) • (wᵀ *ᵥ t.left.get) := by
  rw [h.toMatrix_eq, transpose_sub, transpose_vecMulVec, sub_mulVec, vecMulVec_mulVec,
    op_smul_eq_smul]

theorem rest_transpose_left (h : t.IsComponent w) : (w - t.toMatrix)ᵀ *ᵥ t.left.get = 0 := by
  rw [h.rest_transpose_mulVec]
  by_cases weight : t.sigma = 0
  · rw [h.settled_left weight, mulVec_zero, smul_zero, sub_zero]
  · rw [h.unit_left weight, one_smul, sub_self]

/-- A vector orthogonal to the range is orthogonal to the left vector. -/
theorem left_dotProduct_outside (h : t.IsComponent w) {z : Fin n → ℝ} (outside : wᵀ *ᵥ z = 0) :
    t.left.get ⬝ᵥ z = 0 := by
  by_cases weight : t.sigma = 0
  · rw [h.settled_left weight, zero_dotProduct]
  · obtain ⟨y, same⟩ := h.range weight
    rw [same, dotProduct_comm, dotProduct_mulVec, ← mulVec_transpose, outside, zero_dotProduct]

theorem rest_transpose_outside (h : t.IsComponent w) {z : Fin n → ℝ} (outside : wᵀ *ᵥ z = 0) :
    (w - t.toMatrix)ᵀ *ᵥ z = 0 := by
  rw [h.rest_transpose_mulVec, outside, h.left_dotProduct_outside outside, zero_smul, sub_zero]

theorem rest_mulVec (h : t.IsComponent w) (z : Fin m → ℝ) :
    (w - t.toMatrix) *ᵥ z = w *ᵥ z - (wᵀ *ᵥ t.left.get ⬝ᵥ z) • t.left.get := by
  rw [h.toMatrix_eq, sub_mulVec, vecMulVec_mulVec, op_smul_eq_smul]

theorem range_eq (h : t.IsComponent w) (weight : t.sigma ≠ 0) :
    LinearMap.range w.mulVecLin =
      LinearMap.range (w - t.toMatrix).mulVecLin ⊔ Submodule.span ℝ {t.left.get} := by
  obtain ⟨y, same⟩ := h.range weight
  have inside : t.left.get ∈ LinearMap.range w.mulVecLin := ⟨y, same.symm⟩
  apply le_antisymm
  · rintro _ ⟨z, rfl⟩
    have parts : w *ᵥ z = (w - t.toMatrix) *ᵥ z + (wᵀ *ᵥ t.left.get ⬝ᵥ z) • t.left.get := by
      rw [h.rest_mulVec, sub_add_cancel]
    have along : (wᵀ *ᵥ t.left.get ⬝ᵥ z) • t.left.get ∈ Submodule.span ℝ {t.left.get} :=
      Submodule.smul_mem _ _ (Submodule.mem_span_singleton_self _)
    rw [mulVecLin_apply, parts]
    exact add_mem (Submodule.mem_sup_left ⟨z, rfl⟩) (Submodule.mem_sup_right along)
  · apply sup_le
    · rintro _ ⟨z, rfl⟩
      rw [mulVecLin_apply, h.rest_mulVec]
      exact sub_mem ⟨z, rfl⟩ (Submodule.smul_mem _ _ inside)
    · rwa [Submodule.span_singleton_le_iff_mem]

/-- What is left is orthogonal to the left vector, so that they share only zero. -/
theorem range_rest_inf (h : t.IsComponent w) (weight : t.sigma ≠ 0) :
    LinearMap.range (w - t.toMatrix).mulVecLin ⊓ Submodule.span ℝ {t.left.get} = ⊥ := by
  rw [Submodule.eq_bot_iff]
  rintro _ ⟨⟨z, rfl⟩, along⟩
  obtain ⟨c, scaled⟩ := Submodule.mem_span_singleton.mp along
  have orthogonal : (w - t.toMatrix) *ᵥ z ⬝ᵥ t.left.get = 0 := by
    rw [dotProduct_comm, dotProduct_mulVec, ← mulVec_transpose, h.rest_transpose_left,
      zero_dotProduct]
  rw [mulVecLin_apply] at scaled ⊢
  rw [← scaled, smul_dotProduct, h.unit_left weight, smul_eq_mul, mul_one] at orthogonal
  rw [← scaled, orthogonal, zero_smul]

/-- A component with weight takes one dimension off the range. -/
theorem rank_rest (h : t.IsComponent w) (weight : t.sigma ≠ 0) :
    (w - t.toMatrix).rank + 1 = w.rank := by
  have nonzero := ne_zero_of_unit (h.unit_left weight)
  have dimensions := Submodule.finrank_sup_add_finrank_inf_eq
    (LinearMap.range (w - t.toMatrix).mulVecLin) (Submodule.span ℝ {t.left.get})
  rw [h.range_rest_inf weight, finrank_bot, add_zero, ← h.range_eq weight,
    finrank_span_singleton nonzero] at dimensions
  exact dimensions.symm

end Triplet.IsComponent
end RowMajor

import Mathlib
import RowMajor.Matrix.Basic
import RowMajor.Proofs.Scalar.Exact

/-! Vectors as functions, and their lengths. A vector over its length has length one unless
nothing is left of it. -/
namespace RowMajor
open Matrix
variable {n : Nat}

theorem get_ofFn {α : Type} (f : Fin n → α) : (Vector.ofFn f).get = f := by
  funext i
  simp only [Mat.get_eq, Fin.getElem_fin, Vector.getElem_ofFn]

theorem get_map {α β : Type} (f : α → β) (x : Vector α n) (i : Fin n) :
    (x.map f).get i = f (x.get i) := by
  simp only [Mat.get_eq, Fin.getElem_fin, Vector.getElem_map]

theorem get_replicate {α : Type} (x : α) : (Vector.replicate n x).get = fun _ => x := by
  funext i
  simp only [Mat.get_eq, Fin.getElem_fin, Vector.getElem_replicate]

theorem get_set {α : Type} (x : Vector α n) (i k : Fin n) (value : α) :
    (x.set i value i.isLt).get k = if k = i then value else x.get k := by
  simp only [Mat.get_eq, Fin.getElem_fin, Vector.getElem_set, Fin.ext_iff, eq_comm]

theorem dotProduct_self_nonneg (x : Fin n → ℝ) : 0 ≤ x ⬝ᵥ x :=
  Finset.sum_nonneg fun i _ => mul_self_nonneg (x i)

theorem norm_eq (x : Vector ℝ n) : Scalar.norm x.toList = √(x.get ⬝ᵥ x.get) :=
  congrArg Real.sqrt (ExactScalar.dot_eq x x)

theorem norm_mul_self (x : Vector ℝ n) :
    Scalar.norm x.toList * Scalar.norm x.toList = x.get ⬝ᵥ x.get := by
  rw [norm_eq]
  exact Real.mul_self_sqrt (dotProduct_self_nonneg x.get)

theorem norm_nonneg (x : Vector ℝ n) : 0 ≤ Scalar.norm x.toList := by
  rw [norm_eq]
  exact Real.sqrt_nonneg _

theorem norm_le {x : Vector ℝ n} {bound : ℝ} (nonneg : 0 ≤ bound)
    (h : x.get ⬝ᵥ x.get ≤ bound ^ 2) : Scalar.norm x.toList ≤ bound := by
  rw [norm_eq]
  exact Real.sqrt_le_iff.mpr ⟨nonneg, h⟩

theorem le_norm {x : Vector ℝ n} {bound : ℝ} (h : bound ^ 2 ≤ x.get ⬝ᵥ x.get) :
    bound ≤ Scalar.norm x.toList := by
  rw [norm_eq]
  exact Real.le_sqrt_of_sq_le h

theorem norm_eq_zero_iff (x : Vector ℝ n) : Scalar.norm x.toList = 0 ↔ x.get = 0 := by
  rw [← mul_self_eq_zero, norm_mul_self, dotProduct_self_eq_zero]

theorem norm_pos_iff (x : Vector ℝ n) : 0 < Scalar.norm x.toList ↔ x.get ≠ 0 := by
  rw [(norm_nonneg x).lt_iff_ne', ne_eq, norm_eq_zero_iff]

/-- A vector over its length. -/
theorem get_unit (x : Vector ℝ n) :
    (x.map (· / Scalar.norm x.toList)).get = (Scalar.norm x.toList)⁻¹ • x.get := by
  funext i
  rw [get_map, Pi.smul_apply, smul_eq_mul, div_eq_inv_mul]

theorem unit_dot_self {x : Vector ℝ n} (nonzero : x.get ≠ 0) :
    (x.map (· / Scalar.norm x.toList)).get ⬝ᵥ (x.map (· / Scalar.norm x.toList)).get = 1 := by
  have length := (norm_pos_iff x).mpr nonzero
  rw [get_unit, smul_dotProduct, dotProduct_smul, smul_eq_mul, smul_eq_mul, ← norm_mul_self]
  field_simp

end RowMajor

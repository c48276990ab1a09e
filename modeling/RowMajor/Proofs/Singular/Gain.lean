import Mathlib
import RowMajor.Proofs.Singular.Power

/-! How far a matrix stretches the vectors of a power iteration on its Gram matrix. No
iteration makes it less, so that an iteration that goes on for longer loses nothing. -/
namespace RowMajor
open Matrix
variable {n m : Nat}

theorem dotProduct_sq_le (x y : Fin n → ℝ) : (x ⬝ᵥ y) ^ 2 ≤ (x ⬝ᵥ x) * (y ⬝ᵥ y) := by
  have here := Finset.sum_mul_sq_le_sq_mul_sq Finset.univ x y
  simpa only [dotProduct, ← sq] using here

theorem abs_dotProduct_le_one {x y : Fin n → ℝ} (hx : x ⬝ᵥ x ≤ 1) (hy : y ⬝ᵥ y ≤ 1) :
    |x ⬝ᵥ y| ≤ 1 := by
  rw [← sq_le_one_iff_abs_le_one]
  exact (dotProduct_sq_le x y).trans (mul_le_one₀ hx (dotProduct_self_nonneg y) hy)

/-- The squared length of the image under the transposed matrix. -/
def gain (w : Matrix (Fin n) (Fin m) ℝ) (x : Fin n → ℝ) : ℝ :=
  wᵀ *ᵥ x ⬝ᵥ wᵀ *ᵥ x

section Gain
variable (w : Matrix (Fin n) (Fin m) ℝ)

theorem gain_nonneg (x : Fin n → ℝ) : 0 ≤ gain w x :=
  dotProduct_self_nonneg _

theorem dotProduct_gram (x y : Fin n → ℝ) : x ⬝ᵥ (w * wᵀ) *ᵥ y = wᵀ *ᵥ x ⬝ᵥ wᵀ *ᵥ y := by
  rw [gram_mulVec_in_range, dotProduct_mulVec, ← mulVec_transpose]

end Gain

section Iterate
variable {w : Matrix (Fin n) (Fin m) ℝ} {x y : Fin n → ℝ} {length : ℝ}

/-- One iteration from a vector that is not too long. The image has the direction `y`, and
its length lies between the two gains. -/
theorem gain_le_length (short : x ⬝ᵥ x ≤ 1) (positive : 0 < length) (unit : y ⬝ᵥ y = 1)
    (image : (w * wᵀ) *ᵥ x = length • y) : gain w x ≤ length := by
  have overlap := le_of_abs_le (abs_dotProduct_le_one short (le_of_eq unit))
  calc gain w x = length * (x ⬝ᵥ y) := by
        rw [gain, ← dotProduct_gram, image, dotProduct_smul, smul_eq_mul]
    _ ≤ length := mul_le_of_le_one_right (le_of_lt positive) overlap

theorem length_le_gain (short : x ⬝ᵥ x ≤ 1) (positive : 0 < length) (unit : y ⬝ᵥ y = 1)
    (image : (w * wᵀ) *ᵥ x = length • y) : length ≤ gain w y := by
  have across : length = wᵀ *ᵥ y ⬝ᵥ wᵀ *ᵥ x := by
    rw [← dotProduct_gram, image, dotProduct_smul, unit, smul_eq_mul, mul_one]
  have squares : length * length ≤ gain w y * length := by
    calc length * length = (wᵀ *ᵥ y ⬝ᵥ wᵀ *ᵥ x) ^ 2 := by rw [← across, sq]
      _ ≤ gain w y * gain w x := dotProduct_sq_le _ _
      _ ≤ gain w y * length := mul_le_mul_of_nonneg_left
        (gain_le_length short positive unit image) (gain_nonneg w y)
  exact le_of_mul_le_mul_right squares positive

end Iterate

/-- No image under the transposed matrix is longer than the vector by more than this factor. -/
def StretchesAtMost (w : Matrix (Fin n) (Fin m) ℝ) (bound : ℝ) : Prop :=
  ∀ x, √(gain w x) ≤ bound * √(x ⬝ᵥ x)

namespace StretchesAtMost
variable {w : Matrix (Fin n) (Fin m) ℝ} {bound : ℝ}

theorem nonneg (h : StretchesAtMost w bound) (rows : 0 < n) : 0 ≤ bound := by
  have here := h (Pi.single ⟨0, rows⟩ 1)
  rw [dotProduct_single, Pi.single_eq_same, mul_one, Real.sqrt_one, mul_one] at here
  exact (Real.sqrt_nonneg _).trans here

theorem of_unit (h : StretchesAtMost w bound) {x : Fin n → ℝ} (unit : x ⬝ᵥ x = 1) :
    √(gain w x) ≤ bound := by
  have here := h x
  rwa [unit, Real.sqrt_one, mul_one] at here

/-- A matrix stretches no more than its transposed. -/
theorem transpose (h : StretchesAtMost w bound) (nonneg : 0 ≤ bound) :
    StretchesAtMost wᵀ bound := by
  intro y
  let z : Fin n → ℝ := w *ᵥ y
  have same : gain wᵀ y = z ⬝ᵥ z := by rw [gain, transpose_transpose]
  have moved : z ⬝ᵥ z = y ⬝ᵥ wᵀ *ᵥ z := by
    rw [dotProduct_comm y, dotProduct_mulVec, ← mulVec_transpose]
  have squares : √(z ⬝ᵥ z) * √(z ⬝ᵥ z) ≤ bound * √(y ⬝ᵥ y) * √(z ⬝ᵥ z) := by
    calc √(z ⬝ᵥ z) * √(z ⬝ᵥ z) = y ⬝ᵥ wᵀ *ᵥ z := by
          rw [Real.mul_self_sqrt (dotProduct_self_nonneg z), moved]
      _ ≤ √((y ⬝ᵥ y) * gain w z) :=
          le_of_abs_le (Real.abs_le_sqrt (dotProduct_sq_le y (wᵀ *ᵥ z)))
      _ = √(gain w z) * √(y ⬝ᵥ y) := by
          rw [Real.sqrt_mul (dotProduct_self_nonneg y), mul_comm]
      _ ≤ bound * √(z ⬝ᵥ z) * √(y ⬝ᵥ y) :=
          mul_le_mul_of_nonneg_right (h z) (Real.sqrt_nonneg _)
      _ = bound * √(y ⬝ᵥ y) * √(z ⬝ᵥ z) := mul_right_comm _ _ _
  rw [same]
  rcases (Real.sqrt_nonneg (z ⬝ᵥ z)).eq_or_lt with zero | positive
  · rw [← zero]
    exact mul_nonneg nonneg (Real.sqrt_nonneg _)
  · exact le_of_mul_le_mul_right squares positive

end StretchesAtMost

section Power
variable {b : Mat ℝ n n} {w : Matrix (Fin n) (Fin m) ℝ} (gram : b.toMatrix = w * wᵀ)
  {x : Vector ℝ n} {budget finished : Nat} {epsilon : ℝ} {run : PowerRun ℝ n}
include gram

/-- The image of a vector that the matrix sees, as its length and its direction. -/
theorem gram_mulVec_eq (nonzero : (b.apply x).get ≠ 0) : (w * wᵀ) *ᵥ x.get =
    Scalar.norm (b.apply x).toList •
      ((b.apply x).map (· / Scalar.norm (b.apply x).toList)).get := by
  have length := ne_of_gt ((norm_pos_iff _).mpr nonzero)
  rw [get_unit, smul_smul, mul_inv_cancel₀ length, one_smul, Mat.get_apply, gram]

theorem gain_le_powerIterate (short : x.get ⬝ᵥ x.get ≤ 1)
    (h : powerIterate b epsilon budget finished x = some run) :
    gain w x.get ≤ gain w run.vector.get := by
  induction budget generalizing finished x with
  | zero => cases h
  | succ budget ih =>
      rw [powerIterate] at h
      split at h
      · cases h
        exact le_refl _
      · rename_i goes
        rw [stops_iff] at goes
        have image := gram_mulVec_eq gram goes
        have positive := (norm_pos_iff _).mpr goes
        have unit := unit_dot_self goes
        have step := (gain_le_length short positive unit image).trans
          (length_le_gain short positive unit image)
        dsimp only at h
        split at h
        · cases h
          exact step
        · exact step.trans (ih (le_of_eq unit) h)

/-- What stops under the tighter bound has gone on from where it would have stopped under the
looser one. -/
theorem powerIterate_gain_mono {loose tight : ℝ} (order : tight ≤ loose) {few many : Nat}
    {run' : PowerRun ℝ n} (h : powerIterate b loose few finished x = some run)
    (h' : powerIterate b tight many finished x = some run') :
    gain w run.vector.get ≤ gain w run'.vector.get := by
  induction few generalizing many finished x with
  | zero => cases h
  | succ few ih =>
      cases many with
      | zero => cases h'
      | succ many =>
          rw [powerIterate] at h h'
          split at h
          · rename_i stops
            rw [if_pos stops] at h'
            cases h
            cases h'
            exact le_refl _
          · rename_i goes
            rw [if_neg goes] at h'
            rw [stops_iff] at goes
            dsimp only at h h'
            split at h
            · cases h
              split at h'
              · cases h'
                exact le_refl _
              · exact gain_le_powerIterate gram (le_of_eq (unit_dot_self goes)) h'
            · rename_i apart
              rw [if_neg] at h'
              · exact ih h h'
              · rw [ExactScalar.less_iff, not_lt] at apart ⊢
                exact apart.trans (sub_le_sub_left order 1)

end Power

/-- What a component weighs is how far its left vector is stretched. -/
theorem Mat.sigma_tripletOfLeft (a : Mat ℝ n m) (x : Vector ℝ n) :
    (a.tripletOfLeft x).sigma = √(gain a.toMatrix x.get) := by
  by_cases usable : Usable (a.applyTransposed x)
  · rw [tripletOfLeft_usable usable, norm_eq, get_applyTransposed, gain]
  · have outside : a.toMatrixᵀ *ᵥ x.get = 0 := by
      rwa [usable_applyTransposed, not_not] at usable
    rw [tripletOfLeft_unusable usable, gain, outside, dotProduct_zero, Real.sqrt_zero]
    rfl

end RowMajor

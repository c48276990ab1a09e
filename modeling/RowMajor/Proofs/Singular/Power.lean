import Mathlib
import RowMajor.Proofs.Singular.Component
import RowMajor.Proofs.Singular.Usable

/-! Power iteration on the Gram matrix of the rows. Whatever the limits, what it finds
is a unit vector in the range of the matrix, unless the matrix does not see the start. -/
namespace RowMajor
open Matrix
variable {n m : Nat}

section Range
variable {w : Matrix (Fin n) (Fin m) ℝ} {x : Fin n → ℝ}

theorem gram_mulVec_eq_zero : (w * wᵀ) *ᵥ x = 0 ↔ wᵀ *ᵥ x = 0 := by
  have here := self_mul_conjTranspose_mulVec_eq_zero w x
  rwa [conjTranspose_eq_transpose_of_trivial] at here

theorem gram_mulVec_in_range (x : Fin n → ℝ) : (w * wᵀ) *ᵥ x = w *ᵥ (wᵀ *ᵥ x) :=
  (mulVec_mulVec x w wᵀ).symm

/-- Only zero is in the range and orthogonal to it. -/
theorem eq_zero_of_range (inside : ∃ y, x = w *ᵥ y) (outside : wᵀ *ᵥ x = 0) : x = 0 := by
  obtain ⟨y, same⟩ := inside
  apply dotProduct_self_eq_zero.mp
  calc x ⬝ᵥ x = x ⬝ᵥ w *ᵥ y := by rw [← same]
    _ = wᵀ *ᵥ x ⬝ᵥ y := by rw [dotProduct_mulVec, ← mulVec_transpose]
    _ = 0 := by rw [outside, zero_dotProduct]

end Range

theorem stops_iff (x : Vector ℝ n) :
    (Scalar.isZero (Scalar.norm x.toList) || !Scalar.isFinite (Scalar.norm x.toList)) = true ↔
      x.get = 0 := by
  rw [ExactScalar.isFinite_eq, Bool.not_true, Bool.or_false, ExactScalar.isZero_iff,
    norm_eq_zero_iff]

/-- A unit vector in the range of a matrix. -/
def InRange (w : Matrix (Fin n) (Fin m) ℝ) (x : Fin n → ℝ) : Prop :=
  x ⬝ᵥ x = 1 ∧ ∃ y, x = w *ᵥ y

theorem InRange.transpose_mulVec_ne_zero {w : Matrix (Fin n) (Fin m) ℝ} {x : Fin n → ℝ}
    (h : InRange w x) : wᵀ *ᵥ x ≠ 0 :=
  fun outside => ne_zero_of_unit h.1 (eq_zero_of_range h.2 outside)

/-- One iteration from a vector that the matrix sees. -/
theorem inRange_image {b : Mat ℝ n n} {w : Matrix (Fin n) (Fin m) ℝ} (gram : b.toMatrix = w * wᵀ)
    {x : Vector ℝ n} (nonzero : (b.apply x).get ≠ 0) :
    InRange w ((b.apply x).map (· / Scalar.norm (b.apply x).toList)).get := by
  refine ⟨unit_dot_self nonzero, (Scalar.norm (b.apply x).toList)⁻¹ • (wᵀ *ᵥ x.get), ?_⟩
  rw [get_unit, mulVec_smul, Mat.get_apply, gram, gram_mulVec_in_range]

/-- An iteration either stays at a start that the matrix does not see or ends in the range.
From a vector in the range it never collapses. -/
theorem powerIterate_inRange {b : Mat ℝ n n} {w : Matrix (Fin n) (Fin m) ℝ}
    (gram : b.toMatrix = w * wᵀ) {epsilon : ℝ} {budget finished : Nat} {x : Vector ℝ n}
    {run : PowerRun ℝ n} (h : powerIterate b epsilon budget finished x = some run) :
    (wᵀ *ᵥ x.get = 0 ∧ run.vector = x) ∨ InRange w run.vector.get := by
  induction budget generalizing finished x with
  | zero => cases h
  | succ budget ih =>
      rw [powerIterate] at h
      split at h
      · rename_i stops
        rw [stops_iff, Mat.get_apply, gram, gram_mulVec_eq_zero] at stops
        cases h
        exact .inl ⟨stops, rfl⟩
      · rename_i goes
        rw [stops_iff] at goes
        have next := inRange_image gram goes
        dsimp only at h
        split at h
        · cases h
          exact .inr next
        · -- A vector in the range is seen, so that the first case cannot come up again.
          rcases ih h with ⟨outside, _⟩ | inside
          · exact absurd outside next.transpose_mulVec_ne_zero
          · exact .inr inside

/-- Every overlap is close enough for such a bound, so that one iteration is enough. -/
theorem powerIterate_loose {b : Mat ℝ n n} {epsilon : ℝ} (loose : 1 < epsilon)
    (budget finished : Nat) (x : Vector ℝ n) :
    ∃ run, powerIterate b epsilon (budget + 1) finished x = some run := by
  rw [powerIterate]
  split
  · exact ⟨_, rfl⟩
  · dsimp only
    rw [if_pos]
    · exact ⟨_, rfl⟩
    · rw [ExactScalar.less_iff, ExactScalar.abs_eq]
      exact lt_of_lt_of_le (sub_neg.mpr loose) (abs_nonneg _)

/-- A unit vector that the matrix keeps always overlaps itself by one, which a bound that is
not positive never accepts. -/
theorem powerIterate_fixed {b : Mat ℝ n n} {x : Vector ℝ n} (fixed : b.apply x = x)
    (unit : x.get ⬝ᵥ x.get = 1) {epsilon : ℝ} (strict : epsilon ≤ 0) (budget finished : Nat) :
    powerIterate b epsilon budget finished x = none := by
  have one : Scalar.norm x.toList = 1 := by
    rw [norm_eq, unit, Real.sqrt_one]
  have goes : ¬ (Scalar.isZero (1 : ℝ) || !Scalar.isFinite (1 : ℝ)) = true := by
    rw [ExactScalar.isFinite_eq, Bool.not_true, Bool.or_false, ExactScalar.isZero_iff]
    exact one_ne_zero
  have next : x.map (· / (1 : ℝ)) = x := by
    simp only [div_one, Vector.map_id_fun', id_eq]
  have apart : ¬ Scalar.less (1 - epsilon) (Scalar.abs (Scalar.dot x.toList x.toList)) = true := by
    have overlap : Scalar.dot x.toList x.toList = 1 := (ExactScalar.dot_eq x x).trans unit
    rw [overlap, ExactScalar.less_iff, ExactScalar.abs_eq, abs_one, not_lt]
    exact (le_sub_self_iff 1).mpr strict
  induction budget generalizing finished with
  | zero => rfl
  | succ budget ih =>
      rw [powerIterate, fixed, one, if_neg goes]
      dsimp only
      rw [next, if_neg apart]
      exact ih (finished + 1)

section Image
variable {b : Mat ℝ n n} {x y : Vector ℝ n} {scale : ℝ}

/-- One iteration from a vector whose image has the direction `y`. -/
theorem powerIterate_of_image (unit : y.get ⬝ᵥ y.get = 1) (positive : 0 < scale)
    (image : (b.apply x).get = scale • y.get) (epsilon : ℝ) (budget finished : Nat) :
    powerIterate b epsilon (budget + 1) finished x =
      if Scalar.less (1 - epsilon) (Scalar.abs (Scalar.dot y.toList x.toList)) then
        some ⟨y, .converged, finished + 1⟩
      else powerIterate b epsilon budget (finished + 1) y := by
  have length : Scalar.norm (b.apply x).toList = scale := by
    rw [norm_eq, image, smul_dotProduct, dotProduct_smul, unit, smul_eq_mul, smul_eq_mul, mul_one,
      Real.sqrt_mul_self (le_of_lt positive)]
  have goes : (b.apply x).get ≠ 0 := by
    rw [image]
    exact smul_ne_zero (ne_of_gt positive) (ne_zero_of_unit unit)
  have next : (b.apply x).map (· / Scalar.norm (b.apply x).toList) = y := by
    have same : ((b.apply x).map (· / Scalar.norm (b.apply x).toList)).get = y.get := by
      rw [get_unit, length, image, smul_smul, inv_mul_cancel₀ (ne_of_gt positive), one_smul]
    exact Vector.ext fun i small => congrFun same ⟨i, small⟩
  rw [powerIterate, if_neg (mt (stops_iff _).mp goes)]
  dsimp only
  rw [next]

variable (unit : y.get ⬝ᵥ y.get = 1) (positive : 0 < scale)
  (image : (b.apply x).get = scale • y.get) {epsilon : ℝ}
include unit positive image

/-- An iteration is accepted at once if the first image has the direction `y` and the start
vector is close enough to it. -/
theorem powerIterate_at_once (close : 1 - epsilon < y.get ⬝ᵥ x.get) (budget finished : Nat) :
    powerIterate b epsilon (budget + 1) finished x = some ⟨y, .converged, finished + 1⟩ := by
  rw [powerIterate_of_image unit positive image, if_pos]
  rw [ExactScalar.less_iff, ExactScalar.abs_eq, ExactScalar.dot_eq]
  exact close.trans_le (le_abs_self _)

/-- Otherwise it goes on from there. -/
theorem powerIterate_goes_on (apart : |y.get ⬝ᵥ x.get| ≤ 1 - epsilon) (budget finished : Nat) :
    powerIterate b epsilon (budget + 1) finished x =
      powerIterate b epsilon budget (finished + 1) y := by
  rw [powerIterate_of_image unit positive image, if_neg]
  rw [ExactScalar.less_iff, ExactScalar.abs_eq, ExactScalar.dot_eq]
  exact not_lt.mpr apart

end Image

theorem normalizeStart_of_ne_zero {x : Vector ℝ n} (nonzero : x.get ≠ 0) :
    normalizeStart x = x.map (· / Scalar.norm x.toList) :=
  if_pos ((ExactScalar.less_iff _ _).mpr ((norm_pos_iff x).mpr nonzero))

/-- A start vector is only scaled. -/
theorem get_normalizeStart (x : Vector ℝ n) :
    ∃ c : ℝ, c ≠ 0 ∧ (normalizeStart x).get = c • x.get := by
  by_cases nonzero : x.get = 0
  · have short : ¬ Scalar.less 0 (Scalar.norm x.toList) = true := by
      rw [ExactScalar.less_iff, norm_pos_iff, not_not]
      exact nonzero
    refine ⟨1, one_ne_zero, ?_⟩
    rw [normalizeStart, if_neg short, one_smul]
  · have length := (norm_pos_iff x).mpr nonzero
    refine ⟨(Scalar.norm x.toList)⁻¹, inv_ne_zero (ne_of_gt length), ?_⟩
    rw [normalizeStart_of_ne_zero nonzero, get_unit]

theorem mulVec_normalizeStart_eq_zero (w : Matrix (Fin m) (Fin n) ℝ) (x : Vector ℝ n) :
    w *ᵥ (normalizeStart x).get = 0 ↔ w *ᵥ x.get = 0 := by
  obtain ⟨c, nonzero, same⟩ := get_normalizeStart x
  rw [same, mulVec_smul, smul_eq_zero, or_iff_right nonzero]

/-- With exact scalars only zero has no usable length. -/
theorem usable_iff (x : Vector ℝ n) : Usable x ↔ x.get ≠ 0 := by
  rw [Usable, ExactScalar.isFinite_eq, Bool.and_true, ExactScalar.less_iff, norm_pos_iff]

namespace Mat
variable {a : Mat ℝ n m} {x : Vector ℝ n}

theorem usable_applyTransposed : Usable (a.applyTransposed x) ↔ a.toMatrixᵀ *ᵥ x.get ≠ 0 := by
  rw [usable_iff, get_applyTransposed]

theorem sigma_tripletOfLeft_ne_zero :
    (a.tripletOfLeft x).sigma ≠ 0 ↔ a.toMatrixᵀ *ᵥ x.get ≠ 0 := by
  rw [← usable_applyTransposed]
  by_cases usable : Usable (a.applyTransposed x)
  · rw [tripletOfLeft_usable usable, ne_eq, norm_eq_zero_iff, ← ne_eq, ← usable_iff]
  · rw [tripletOfLeft_unusable usable]
    exact iff_of_false (absurd rfl) usable

theorem isComponent_blank (w : Matrix (Fin n) (Fin m) ℝ) :
    (Triplet.blank : Triplet ℝ n m).IsComponent w := by
  have zero (l : Nat) : (Vector.replicate l (0 : ℝ)).get = 0 := get_replicate 0
  constructor
  · exact ⟨le_refl 0, absurd rfl, absurd rfl, fun _ => zero n, fun _ => zero m⟩
  · rw [Triplet.blank, zero, mulVec_zero, zero_smul]
  · exact absurd rfl

theorem isComponent_tripletOfLeft (h : a.toMatrixᵀ *ᵥ x.get = 0 ∨ InRange a.toMatrix x.get) :
    (a.tripletOfLeft x).IsComponent a.toMatrix := by
  by_cases usable : Usable (a.applyTransposed x)
  · have inside := h.resolve_left (usable_applyTransposed.mp usable)
    have image := (usable_iff _).mp usable
    have length := ne_of_gt ((norm_pos_iff _).mpr image)
    rw [tripletOfLeft_usable usable]
    constructor
    · exact ⟨norm_nonneg _, fun _ => inside.1, fun _ => unit_dot_self image,
        fun none => absurd none length, fun none => absurd none length⟩
    · rw [get_unit, smul_smul, mul_inv_cancel₀ length, one_smul, get_applyTransposed]
    · exact fun _ => inside.2
  · rw [tripletOfLeft_unusable usable]
    exact isComponent_blank a.toMatrix

/-- What a left vector takes off a matrix, with weight or without. -/
theorem toMatrix_deflate_tripletOfLeft (a : Mat ℝ n m) (x : Vector ℝ n) :
    (a.deflate (a.tripletOfLeft x)).toMatrix =
      a.toMatrix - vecMulVec x.get (a.toMatrixᵀ *ᵥ x.get) := by
  by_cases usable : Usable (a.applyTransposed x)
  · have length := ne_of_gt ((norm_pos_iff _).mpr ((usable_iff _).mp usable))
    rw [toMatrix_deflate, tripletOfLeft_usable usable, Triplet.toMatrix, get_unit, vecMulVec_smul,
      smul_smul, mul_inv_cancel₀ length, one_smul, get_applyTransposed]
  · have outside := not_not.mp (mt usable_applyTransposed.mpr usable)
    rw [tripletOfLeft_unusable usable, deflate_blank, outside]
    ext i j
    rw [Matrix.sub_apply, vecMulVec_apply, Pi.zero_apply, mul_zero, sub_zero]

variable {σ : Type} {source : Source σ ℝ} {limits : PowerLimits ℝ} {state after : σ}
  {run : PowerRun ℝ n}

theorem leading_inRange (h : a.rowGram.leading source limits state = (some run, after)) :
    a.toMatrixᵀ *ᵥ (source.vector n state).1.get = 0 ∧ a.toMatrixᵀ *ᵥ run.vector.get = 0 ∨
      InRange a.toMatrix run.vector.get := by
  have found := congrArg Prod.fst h
  rcases powerIterate_inRange a.toMatrix_rowGram found with ⟨outside, same⟩ | inside
  · refine .inl ⟨(mulVec_normalizeStart_eq_zero _ _).mp outside, ?_⟩
    rwa [same]
  · exact .inr inside

theorem isComponent_leading (h : a.rowGram.leading source limits state = (some run, after)) :
    (a.tripletOfLeft run.vector).IsComponent a.toMatrix :=
  isComponent_tripletOfLeft ((leading_inRange h).imp_left And.right)

section Drawn
variable {b : Mat ℝ n n} {drawn y : Vector ℝ n} {scale : ℝ}

/-- The start vector is the drawn one at unit length, and so is its image. -/
theorem apply_normalizeStart (unit : y.get ⬝ᵥ y.get = 1) (positive : 0 < scale)
    (image : b.toMatrix *ᵥ drawn.get = scale • y.get) :
    0 < Scalar.norm drawn.toList ∧
      (normalizeStart drawn).get = (Scalar.norm drawn.toList)⁻¹ • drawn.get ∧
      (b.apply (normalizeStart drawn)).get = ((Scalar.norm drawn.toList)⁻¹ * scale) • y.get := by
  have nonzero : drawn.get ≠ 0 := by
    intro none
    rw [none, mulVec_zero] at image
    exact smul_ne_zero (ne_of_gt positive) (ne_zero_of_unit unit) image.symm
  have scaled : (normalizeStart drawn).get = (Scalar.norm drawn.toList)⁻¹ • drawn.get := by
    rw [normalizeStart_of_ne_zero nonzero, get_unit]
  refine ⟨(norm_pos_iff drawn).mpr nonzero, scaled, ?_⟩
  rw [get_apply, scaled, mulVec_smul, image, smul_smul]

variable (draws : source.vector n state = (drawn, after)) (unit : y.get ⬝ᵥ y.get = 1)
  (positive : 0 < scale) (image : b.toMatrix *ᵥ drawn.get = scale • y.get) {epsilon : ℝ}
include draws unit positive image

/-- A drawn vector is close to `y` if their overlap is, by the length of the vector. -/
theorem leading_at_once
    (close : (1 - epsilon) * Scalar.norm drawn.toList < y.get ⬝ᵥ drawn.get) (budget : Nat) :
    b.leading source ⟨epsilon, budget + 1⟩ state = (some ⟨y, .converged, 1⟩, after) := by
  obtain ⟨long, scaled, next⟩ := apply_normalizeStart unit positive image
  rw [Mat.leading, draws]
  refine Prod.ext (powerIterate_at_once unit (mul_pos (inv_pos.mpr long) positive) next ?_ _ 0) rfl
  rw [scaled, dotProduct_smul, smul_eq_mul, lt_inv_mul_iff₀ long, mul_comm]
  exact close

/-- A drawn vector that is not close to `y` leads on to it. -/
theorem leading_goes_on
    (apart : |y.get ⬝ᵥ drawn.get| ≤ (1 - epsilon) * Scalar.norm drawn.toList) (budget : Nat) :
    b.leading source ⟨epsilon, budget + 1⟩ state = (powerIterate b epsilon budget 1 y, after) := by
  obtain ⟨long, scaled, next⟩ := apply_normalizeStart unit positive image
  rw [Mat.leading, draws]
  refine Prod.ext (powerIterate_goes_on unit (mul_pos (inv_pos.mpr long) positive) next ?_ _ 0) rfl
  rw [scaled, dotProduct_smul, smul_eq_mul, abs_mul, abs_of_pos (inv_pos.mpr long),
    inv_mul_le_iff₀ long, mul_comm]
  exact apart

end Drawn

/-- A start vector that the Gram matrix sees leads to a component with weight. -/
theorem leading_finds (h : a.rowGram.leading source limits state = (some run, after))
    (seen : (a.rowGram.apply (source.vector n state).1).get ≠ 0) :
    (a.tripletOfLeft run.vector).sigma ≠ 0 := by
  rw [get_apply, toMatrix_rowGram, ne_eq, gram_mulVec_eq_zero] at seen
  rw [sigma_tripletOfLeft_ne_zero]
  rcases leading_inRange h with ⟨outside, _⟩ | inside
  · exact absurd outside seen
  · exact inside.transpose_mulVec_ne_zero

end Mat
end RowMajor

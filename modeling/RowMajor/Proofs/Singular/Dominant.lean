import Mathlib
import RowMajor.Proofs.Singular.Found

/-! The order of the components. What is left of a matrix stretches no vector further than the
matrix does. A component may still be too light, since its power iteration can stop before it
comes near a dominant direction, but the more iterations there were the less it can be. -/
namespace RowMajor
open Matrix
variable {n m k : Nat} {σ : Type}

/-- A unit vector that the transposed matrix stretches as far as it stretches any. -/
structure IsDominant (w : Matrix (Fin n) (Fin m) ℝ) (e : Fin n → ℝ) : Prop where
  unit : e ⬝ᵥ e = 1
  most : StretchesAtMost w √(gain w e)

section Gram
variable {w : Matrix (Fin n) (Fin m) ℝ} {e : Fin n → ℝ}

theorem gain_le_of_stretches {bound : ℝ} (h : StretchesAtMost w √bound) (nonneg : 0 ≤ bound)
    (x : Fin n → ℝ) : gain w x ≤ bound * (x ⬝ᵥ x) := by
  have here := h x
  rw [← Real.sqrt_mul nonneg] at here
  exact (Real.sqrt_le_sqrt_iff (mul_nonneg nonneg (dotProduct_self_nonneg x))).mp here

theorem isDominant_of_gain_le (unit : e ⬝ᵥ e = 1) (most : ∀ x, gain w x ≤ gain w e * (x ⬝ᵥ x)) :
    IsDominant w e where
  unit := unit
  most x := by
    rw [← Real.sqrt_mul (gain_nonneg w e)]
    exact Real.sqrt_le_sqrt (most x)

/-- The Gram matrix scales the part of a vector along a dominant direction. -/
theorem IsDominant.dotProduct_gram (h : IsDominant w e) (x : Fin n → ℝ) :
    e ⬝ᵥ (w * wᵀ) *ᵥ x = gain w e * (e ⬝ᵥ x) := by
  let rest : ℝ := gain w e * (e ⬝ᵥ x) - wᵀ *ᵥ e ⬝ᵥ wᵀ *ᵥ x
  -- No step from the direction along `x` gains anything, so that nothing is linear in its length.
  have quadratic (s : ℝ) :
      0 ≤ (gain w e * (x ⬝ᵥ x) - gain w x) * (s * s) + 2 * rest * s + 0 := by
    have here := gain_le_of_stretches h.most (gain_nonneg w e) (e + s • x)
    have length : (e + s • x) ⬝ᵥ (e + s • x) = 1 + 2 * s * (e ⬝ᵥ x) + s * s * (x ⬝ᵥ x) := by
      simp only [add_dotProduct, dotProduct_add, smul_dotProduct, dotProduct_smul, smul_eq_mul,
        h.unit, dotProduct_comm x e]
      ring
    have stretched : gain w (e + s • x) =
        gain w e + 2 * s * (wᵀ *ᵥ e ⬝ᵥ wᵀ *ᵥ x) + s * s * gain w x := by
      simp only [gain, mulVec_add, mulVec_smul, add_dotProduct, dotProduct_add, smul_dotProduct,
        dotProduct_smul, smul_eq_mul, dotProduct_comm (wᵀ *ᵥ x) (wᵀ *ᵥ e)]
      ring
    rw [length, stretched] at here
    linarith
  have discriminant := discrim_le_zero quadratic
  rw [discrim, mul_zero, sub_zero] at discriminant
  have twice := (pow_eq_zero_iff two_ne_zero).mp (le_antisymm discriminant (sq_nonneg _))
  have none : rest = 0 := (mul_eq_zero_iff_left two_ne_zero).mp twice
  rw [RowMajor.dotProduct_gram]
  exact (sub_eq_zero.mp none).symm

theorem IsDominant.abs_dotProduct_image (h : IsDominant w e) {x y : Fin n → ℝ} {length : ℝ}
    (positive : 0 < length) (image : (w * wᵀ) *ᵥ x = length • y) :
    |e ⬝ᵥ x| * gain w e = length * |e ⬝ᵥ y| := by
  have grown := h.dotProduct_gram x
  rw [image, dotProduct_smul, smul_eq_mul] at grown
  calc |e ⬝ᵥ x| * gain w e = |gain w e * (e ⬝ᵥ x)| := by
        rw [abs_mul, abs_of_nonneg (gain_nonneg w e), mul_comm]
    _ = length * |e ⬝ᵥ y| := by rw [← grown, abs_mul, abs_of_pos positive]

/-- What a component leaves of a matrix stretches nothing further. -/
theorem Triplet.IsComponent.stretches_rest {t : Triplet ℝ n m} (h : t.IsComponent w) {bound : ℝ}
    (nonneg : 0 ≤ bound) (stretches : StretchesAtMost w bound) :
    StretchesAtMost (w - t.toMatrix) bound := by
  intro z
  by_cases weight : t.sigma = 0
  · rw [Triplet.toMatrix_settled weight, sub_zero]
    exact stretches z
  · let part : Fin n → ℝ := z - (t.left.get ⬝ᵥ z) • t.left.get
    have same : gain (w - t.toMatrix) z = gain w part := by
      rw [gain, h.rest_transpose_mulVec, gain, mulVec_sub, mulVec_smul]
    have shorter : part ⬝ᵥ part ≤ z ⬝ᵥ z := by
      have split : part ⬝ᵥ part = z ⬝ᵥ z - (t.left.get ⬝ᵥ z) ^ 2 := by
        simp only [part, sub_dotProduct, dotProduct_sub, smul_dotProduct, dotProduct_smul,
          smul_eq_mul, h.unit_left weight, dotProduct_comm z t.left.get]
        ring
      rw [split]
      exact sub_le_self _ (sq_nonneg _)
    rw [same]
    exact (stretches part).trans
      (mul_le_mul_of_nonneg_left (Real.sqrt_le_sqrt shorter) nonneg)

/-- With every iteration the part along a dominant direction grows by the largest factor there
is, and the vector by no more than what the last one gains. -/
theorem powerIterate_growth {b : Mat ℝ n n} (gram : b.toMatrix = w * wᵀ) (dominant : IsDominant w e)
    {epsilon : ℝ} {budget finished : Nat} {x : Vector ℝ n} {run : PowerRun ℝ n}
    (short : x.get ⬝ᵥ x.get ≤ 1) (h : powerIterate b epsilon budget finished x = some run) :
    ∃ more, run.iterations = finished + (more + 1) ∧
      |e ⬝ᵥ x.get| * gain w e ^ (more + 1) ≤ gain w run.vector.get ^ (more + 1) := by
  induction budget generalizing finished x with
  | zero => cases h
  | succ budget ih =>
      rw [powerIterate] at h
      split at h
      · rename_i stops
        rw [stops_iff, Mat.get_apply, gram] at stops
        have grown := dominant.dotProduct_gram x.get
        rw [stops, dotProduct_zero, eq_comm, mul_eq_zero] at grown
        cases h
        refine ⟨0, rfl, ?_⟩
        rw [zero_add, pow_one, pow_one]
        rcases grown with none | outside
        · rw [none, mul_zero]
          exact gain_nonneg w _
        · rw [outside, abs_zero, zero_mul]
          exact gain_nonneg w _
      · rename_i goes
        rw [stops_iff] at goes
        have positive := (norm_pos_iff _).mpr goes
        have unit := unit_dot_self goes
        have image := gram_mulVec_eq gram goes
        have grown := dominant.abs_dotProduct_image positive image
        have length := length_le_gain short positive unit image
        dsimp only at h
        split at h
        · cases h
          refine ⟨0, rfl, ?_⟩
          rw [zero_add, pow_one, pow_one, grown]
          have overlap := abs_dotProduct_le_one (le_of_eq dominant.unit) (le_of_eq unit)
          exact (mul_le_of_le_one_right (le_of_lt positive) overlap).trans length
        · obtain ⟨more, count, ahead⟩ := ih (le_of_eq unit) h
          refine ⟨more + 1, by omega, ?_⟩
          have reached := length.trans (gain_le_powerIterate gram (le_of_eq unit) h)
          rw [pow_succ' _ (more + 1), ← mul_assoc, grown, mul_assoc, pow_succ' _ (more + 1)]
          exact (mul_le_mul_of_nonneg_left ahead (le_of_lt positive)).trans
            (mul_le_mul_of_nonneg_right reached (pow_nonneg (gain_nonneg w _) _))

end Gram

/-- A start vector is a unit vector or zero. -/
theorem normalizeStart_dot_self_le_one (x : Vector ℝ n) :
    (normalizeStart x).get ⬝ᵥ (normalizeStart x).get ≤ 1 := by
  by_cases nonzero : x.get = 0
  · obtain ⟨c, _, same⟩ := get_normalizeStart x
    rw [same, nonzero, smul_zero, dotProduct_zero]
    exact zero_le_one
  · rw [normalizeStart_of_ne_zero nonzero]
    exact le_of_eq (unit_dot_self nonzero)

namespace Deflation
variable {source : Source σ ℝ} {limits : PowerLimits ℝ} {state : σ} {a : Mat ℝ n m}
  {f : SingularFactors ℝ n m k}

/-- The length of the part of the next start vector along a dominant direction of the working
copy, on its shorter side. -/
def StartsAlong (source : Source σ ℝ) (d : Deflation σ ℝ n m k) (share : ℝ) : Prop :=
  if m < n then ∃ e, IsDominant d.work.toMatrixᵀ e ∧
    share = |e ⬝ᵥ (normalizeStart (source.vector m d.state).1).get|
  else ∃ e, IsDominant d.work.toMatrix e ∧
    share = |e ⬝ᵥ (normalizeStart (source.vector n d.state).1).get|

theorem exists_startsAlong (wide : ¬ m < n) {d : Deflation σ ℝ n m k} {e : Fin n → ℝ}
    (dominant : IsDominant d.work.toMatrix e)
    (part : e ⬝ᵥ (source.vector n d.state).1.get ≠ 0) :
    ∃ share, 0 < share ∧ d.StartsAlong source share := by
  obtain ⟨scale, nonzero, same⟩ := get_normalizeStart (source.vector n d.state).1
  refine ⟨|e ⬝ᵥ (normalizeStart (source.vector n d.state).1).get|, ?_, ?_⟩
  · rw [same, dotProduct_smul, smul_eq_mul]
    exact abs_pos.mpr (mul_ne_zero nonzero part)
  · rw [StartsAlong, if_neg wide]
    exact ⟨e, dominant, rfl⟩

theorem startsAlong_swap (tall : m < n) {d : Deflation σ ℝ n m k} {share : ℝ}
    (h : d.StartsAlong source share) : d.swap.StartsAlong source share := by
  have work : d.swap.work.toMatrix = d.work.toMatrixᵀ := d.work.toMatrix_transpose
  rw [StartsAlong, if_pos tall] at h
  rwa [StartsAlong, if_neg (Nat.lt_asymm tall), work]

/-- Later working copies stretch nothing further than earlier ones. -/
theorem stretches_stage (wide : ¬ m < n) {bound : ℝ} (nonneg : 0 ≤ bound) {count later : Nat}
    (enough : later ≤ k) (order : count ≤ later)
    (done : (stage source limits state a f later).failed = none)
    (h : StretchesAtMost (stage source limits state a f count).work.toMatrix bound) :
    StretchesAtMost (stage source limits state a f later).work.toMatrix bound := by
  induction order with
  | refl => exact h
  | @step later order ih =>
      obtain ⟨before, t, _, _, _, finds, same⟩ := stage_finds enough done
      rw [same, accept, Mat.toMatrix_deflate]
      exact (finds.isComponent wide).stretches_rest nonneg
        (ih (Nat.le_of_succ_le enough) before)

/-- No later component is heavier than this one by more than what the start vector lacked along
a dominant direction, spread over the iterations that component `c` is reported with. -/
def NearlyLargest (source : Source σ ℝ) (limits : PowerLimits ℝ) (state : σ) (a : Mat ℝ n m)
    (f : SingularFactors ℝ n m k) (c : Fin k) : Prop :=
  ∃ halt spent, (run source limits state a f).halts[(c : Nat)]? = some (halt, spent) ∧ 0 < spent ∧
    ∀ share, (stage source limits state a f c).StartsAlong source share → ∀ d, c ≤ d →
      share * (run source limits state a f).factors.s.get d ^ (2 * spent) ≤
        (run source limits state a f).factors.s.get c ^ (2 * spent)

theorem nearlyLargest_of_wide (wide : ¬ m < n) (done : (run source limits state a f).failed = none)
    (c : Fin k) : NearlyLargest source limits state a f c := by
  obtain ⟨found, here⟩ := foundBy_of_wide wide done c
  refine ⟨found.halt, found.iterations, here.halt, lt_iterations here.led, ?_⟩
  rintro share along d order
  rw [StartsAlong, if_neg wide] at along
  obtain ⟨e, dominant, rfl⟩ := along
  obtain ⟨more, count, grown⟩ := powerIterate_growth (Mat.toMatrix_rowGram _) dominant
    (normalizeStart_dot_self_le_one _) here.led
  rw [Nat.zero_add] at count
  rw [← count] at grown
  obtain ⟨found', there⟩ := foundBy_of_wide wide done d
  have good : (stage source limits state a f d).failed = none := by
    rw [← stage_all] at done
    exact failed_stage_of_le (Nat.le_refl k) (Nat.le_of_lt d.isLt) done
  have stretches := stretches_stage wide (Real.sqrt_nonneg _) (Nat.le_of_lt d.isLt) order good
    dominant.most
  have bounded := there.weight_le (Real.sqrt_nonneg _) stretches
  have nonneg : 0 ≤ (run source limits state a f).factors.s.get d := by
    rw [there.weight]
    exact Real.sqrt_nonneg _
  have squared := pow_le_pow_left₀ nonneg bounded (2 * found.iterations)
  rw [pow_mul √_, Real.sq_sqrt (gain_nonneg _ e)] at squared
  rw [here.weight, pow_mul √_, Real.sq_sqrt (gain_nonneg _ _)]
  exact (mul_le_mul_of_nonneg_left squared (abs_nonneg _)).trans grown

theorem nearlyLargest (done : (run source limits state a f).failed = none) (c : Fin k) :
    NearlyLargest source limits state a f c := by
  by_cases tall : m < n
  · have same := run_swap tall source limits state a f
    obtain ⟨halt, spent, report, long, largest⟩ := nearlyLargest_of_wide (Nat.lt_asymm tall)
      (failed_run_transpose tall done) c
    rw [← same] at report largest
    refine ⟨halt, spent, report, long, fun share along => largest share ?_⟩
    rw [← swap_stage tall]
    exact startsAlong_swap tall along
  · exact nearlyLargest_of_wide tall done c

end Deflation
end RowMajor

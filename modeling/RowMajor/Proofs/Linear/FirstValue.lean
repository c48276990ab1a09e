import Mathlib
import RowMajor.Proofs.Linear.Budget
import RowMajor.Proofs.Singular.Found
import RowMajor.Proofs.Singular.Gain

/-! The first singular value that a call finds. A tighter bound on the overlap of the iterates
never makes it smaller, and it never exceeds what the matrix does to the length of a vector. -/
namespace RowMajor
open Matrix
variable {n m k : Nat} {σ : Type}

namespace Deflation
variable {source : Source σ ℝ} {state : σ} {a : Mat ℝ n m} {f g : SingularFactors ℝ n m k}
  {first : Fin k} {limits : PowerLimits ℝ}

/-- The first component is found in the matrix itself. -/
theorem stage_first (start : (first : Nat) = 0) :
    stage source limits state a f first = ⟨a, state, f, [], none⟩ := by
  rw [start]
  rfl

theorem first_le_of_wide (wide : ¬ m < n) (start : (first : Nat) = 0) {bound : ℝ}
    (nonneg : 0 ≤ bound) (done : (run source limits state a f).failed = none)
    (h : StretchesAtMost a.toMatrix bound) :
    (run source limits state a f).factors.s.get first ≤ bound := by
  obtain ⟨found, by_found⟩ := foundBy_of_wide wide done first
  apply by_found.weight_le nonneg
  rwa [stage_first start]

theorem first_mono_of_wide (wide : ¬ m < n) (start : (first : Nat) = 0) {loose tight : ℝ}
    (order : tight ≤ loose) {few many : Nat}
    (done : (run source ⟨loose, few⟩ state a f).failed = none)
    (done' : (run source ⟨tight, many⟩ state a g).failed = none) :
    (run source ⟨loose, few⟩ state a f).factors.s.get first ≤
      (run source ⟨tight, many⟩ state a g).factors.s.get first := by
  obtain ⟨found, by_found⟩ := foundBy_of_wide wide done first
  obtain ⟨found', by_found'⟩ := foundBy_of_wide wide done' first
  have led := by_found.led
  have led' := by_found'.led
  rw [by_found.weight, by_found'.weight]
  rw [stage_first start] at led led' ⊢
  rw [stage_first start]
  exact Real.sqrt_le_sqrt (powerIterate_gain_mono a.toMatrix_rowGram order led led')

theorem first_le (start : (first : Nat) = 0) (rows : 0 < n)
    (done : (run source limits state a f).failed = none) {bound : ℝ}
    (h : StretchesAtMost a.toMatrix bound) :
    (run source limits state a f).factors.s.get first ≤ bound := by
  by_cases tall : m < n
  · have same := run_swap tall source limits state a f
    have turned := h.transpose (h.nonneg rows)
    rw [← Mat.toMatrix_transpose] at turned
    have bounded := first_le_of_wide (Nat.lt_asymm tall) start (h.nonneg rows)
      (failed_run_transpose tall done) turned
    rwa [← same] at bounded
  · exact first_le_of_wide tall start (h.nonneg rows) done h

theorem first_mono (start : (first : Nat) = 0) {loose tight : ℝ} (order : tight ≤ loose)
    {few many : Nat} (done : (run source ⟨loose, few⟩ state a f).failed = none)
    (done' : (run source ⟨tight, many⟩ state a g).failed = none) :
    (run source ⟨loose, few⟩ state a f).factors.s.get first ≤
      (run source ⟨tight, many⟩ state a g).factors.s.get first := by
  by_cases tall : m < n
  · have same := run_swap tall source ⟨loose, few⟩ state a f
    have same' := run_swap tall source ⟨tight, many⟩ state a g
    have ordered := first_mono_of_wide (Nat.lt_asymm tall) start order
      (failed_run_transpose tall done) (failed_run_transpose tall done')
    rwa [← same, ← same'] at ordered
  · exact first_mono_of_wide tall start order done done'

end Deflation

namespace Linear
open InPlace (Ends)

/-- The budgets, the targets and the logs of the two calls have nothing to do with each other. -/
theorem singularInto_firstValue {source : Source σ ℝ} {state : σ} {t : Tensor ℝ} {a : Mat ℝ n m}
    (ht : t.Holds a) (rows : 0 < n) (cols : 0 < m) {loose tight : ℝ} (order : tight ≤ loose)
    {few many : Nat} {targets after targets' after' : Tensor ℝ × Tensor ℝ × Tensor ℝ}
    {log later log' later' : Log}
    (ends : Ends (singularInto source state ⟨loose, few⟩ t) targets log (.ok ()) after later)
    (ends' : Ends (singularInto source state ⟨tight, many⟩ t) targets' log' (.ok ())
      after' later') :
    ∃ f g : SingularFactors ℝ n m (min n m), HoldFactors after f ∧ HoldFactors after' g ∧
      let first : Fin (min n m) := ⟨0, lt_min rows cols⟩
      f.s.get first ≤ g.s.get first ∧
        ∀ bound, (∀ x, √(a.toMatrixᵀ *ᵥ x ⬝ᵥ a.toMatrixᵀ *ᵥ x) ≤ bound * √(x ⬝ᵥ x)) →
          f.s.get first ≤ bound ∧ g.s.get first ≤ bound := by
  obtain ⟨h, rfl⟩ := ht
  obtain ⟨_, _, result, holds, _⟩ := exists_run h id ends
  obtain ⟨_, _, result', holds', _⟩ := exists_run h id ends'
  have done := decompositionResult_eq_ok.mp result.symm
  have done' := decompositionResult_eq_ok.mp result'.symm
  exact ⟨_, _, holds, holds', Deflation.first_mono rfl order done done', fun bound stretches =>
    ⟨Deflation.first_le rfl rows done stretches,
      Deflation.first_le rfl rows done' stretches⟩⟩

/-- The first vector that is drawn leads to the first axis, which is no singular vector. -/
noncomputable def turning : Source Nat ℝ :=
  drawing [5, -6, -3, 4]

noncomputable def turningTensor : Tensor ℝ :=
  ⟨squareLayout, (([2, 2, 2, 1] : List ℤ).map Int.cast).toArray, 0, by decide⟩

noncomputable def turningMatrix : Mat ℝ 2 2 :=
  turningTensor.matrix rfl

theorem toMatrix_turningMatrix : turningMatrix.toMatrix = !![2, 2; 2, 1] := by
  have cast : turningMatrix.toMatrix = (!![2, 2; 2, 1] : Matrix _ _ ℤ).map Int.cast := by
    ext i j
    fin_cases i <;> fin_cases j <;> rfl
  rw [cast]
  ext i j
  fin_cases i <;> fin_cases j <;> simp

/-- What the left vector of a first component leaves. -/
noncomputable def turningRest (p q : ℤ) : Mat ℝ 2 2 :=
  turningMatrix.deflate (turningMatrix.tripletOfLeft (fifths p q))

theorem toMatrix_turningRest (p q : ℤ) : (turningRest p q).toMatrix =
    (!![2 - p * (2 * p + 2 * q) / 25, 2 - p * (2 * p + q) / 25;
      2 - q * (2 * p + 2 * q) / 25, 1 - q * (2 * p + q) / 25] : Matrix _ _ ℝ) := by
  rw [turningRest, Mat.toMatrix_deflate_tripletOfLeft, toMatrix_turningMatrix, get_fifths]
  ext i j
  fin_cases i <;> fin_cases j <;>
    simp [vecMulVec, mulVec, dotProduct, Fin.sum_univ_two] <;> ring

theorem gram_turningMatrix (p q : ℝ) :
    turningMatrix.rowGram.toMatrix *ᵥ ![p, q] = ![8 * p + 6 * q, 6 * p + 5 * q] := by
  rw [Mat.toMatrix_rowGram, toMatrix_turningMatrix]
  ext i
  fin_cases i <;> simp [Matrix.mul_apply, mulVec, dotProduct, Fin.sum_univ_two] <;> norm_num

theorem gram_turning_zero : turningMatrix.rowGram.toMatrix *ᵥ (turning.vector 2 0).1.get =
    (4 : ℝ) • (fifths 5 0).get := by
  rw [turning, get_drawing, gram_turningMatrix, get_fifths]
  ext i
  fin_cases i <;> norm_num

theorem leading_turning_loose : turningMatrix.rowGram.leading turning ⟨1 / 2, 1⟩ 0 =
    (some ⟨fifths 5 0, .converged, 1⟩, 2) := by
  refine leading_drawing 8 (by decide) (by norm_num) gram_turning_zero (by decide)
    (by norm_num) (by decide) ?_ 0
  norm_num

/-- Under the tighter bound the first image is not close enough, but the second one is. -/
theorem leading_turning_tight : turningMatrix.rowGram.leading turning ⟨1 / 4, 2⟩ 0 =
    (some ⟨fifths 4 3, .converged, 2⟩, 2) := by
  have first : (turningMatrix.rowGram.apply (fifths 5 0)).get = (10 : ℝ) • (fifths 4 3).get := by
    rw [Mat.get_apply, get_fifths, gram_turningMatrix, get_fifths]
    ext i
    fin_cases i <;> norm_num
  have close : 1 - (1 / 4 : ℝ) < (fifths 4 3).get ⬝ᵥ (fifths 5 0).get := by
    rw [get_fifths, get_fifths]
    norm_num [dotProduct, Fin.sum_univ_two]
  rw [Mat.leading_goes_on rfl (unit_fifths (by norm_num)) (by norm_num) gram_turning_zero ?_ 1,
    powerIterate_at_once (unit_fifths (by norm_num)) (by norm_num) first close]
  · rfl
  · have long : (7 : ℝ) ≤ Scalar.norm (turning.vector 2 0).1.toList := by
      refine le_norm ?_
      rw [turning, get_drawing]
      norm_num [dotProduct, Fin.sum_univ_two]
    rw [turning] at long ⊢
    rw [dotProduct_drawing]
    norm_num
    linarith

theorem gram_rest_loose : (turningRest 5 0).rowGram.toMatrix *ᵥ (turning.vector 2 2).1.get =
    (20 : ℝ) • (fifths 0 5).get := by
  rw [Mat.toMatrix_rowGram, toMatrix_turningRest, turning, get_drawing, get_fifths]
  ext i
  fin_cases i <;> norm_num [Matrix.mul_apply, mulVec, dotProduct, Fin.sum_univ_two]

theorem gram_rest_tight : (turningRest 4 3).rowGram.toMatrix *ᵥ (turning.vector 2 2).1.get =
    (8 / 5 : ℝ) • (fifths (-3) 4).get := by
  rw [Mat.toMatrix_rowGram, toMatrix_turningRest, turning, get_drawing, get_fifths]
  ext i
  fin_cases i <;> norm_num [Matrix.mul_apply, mulVec, dotProduct, Fin.sum_univ_two]

/-- The second vector that is drawn is close enough to what either first component leaves. -/
theorem leading_rest_loose : (turningRest 5 0).rowGram.leading turning ⟨1 / 2, 1⟩ 2 =
    (some ⟨fifths 0 5, .converged, 1⟩, 4) := by
  refine leading_drawing 5 (by decide) (by norm_num) gram_rest_loose (by decide)
    (by norm_num) (by decide) ?_ 0
  norm_num

theorem leading_rest_tight : (turningRest 4 3).rowGram.leading turning ⟨1 / 4, 2⟩ 2 =
    (some ⟨fifths (-3) 4, .converged, 1⟩, 4) := by
  refine leading_drawing 5 (by decide) (by norm_num) gram_rest_tight (by decide)
    (by norm_num) (by decide) ?_ 1
  norm_num

/-- Two iterations that succeed make a call succeed, which first reports on the first one. -/
theorem turningTensor_ends {limits : PowerLimits ℝ} {found found' : PowerRun ℝ 2}
    {middle last : Nat}
    (first : turningMatrix.rowGram.leading turning limits 0 = (some found, middle))
    (second : (turningMatrix.deflate (turningMatrix.tripletOfLeft found.vector)).rowGram.leading
      turning limits middle = (some found', last)) :
    ∃ (after : Tensor ℝ × Tensor ℝ × Tensor ℝ) (later : Log),
      Ends (singularInto turning 0 limits turningTensor) (turningTensor, twoZeros, turningTensor)
        #[] (.ok ()) after later ∧
      later[0]? = some (haltEvent 0 found.halt found.iterations) := by
  have square : turningTensor.shape = [2, 2] := rfl
  have flat : twoZeros.shape = [2] := rfl
  let held : SingularFactors ℝ 2 2 2 := ⟨turningMatrix, twoZeros.vector flat, turningMatrix⟩
  have good : (Deflation.run turning limits 0 turningMatrix held).failed = none :=
    Deflation.failed_run_of_two_led (Nat.lt_irrefl 2) first second
  refine ⟨_, _, ends_of_run square square flat square (by decide) (by decide) rfl good #[], ?_⟩
  rw [Array.empty_append]
  exact getElem?_haltEvents (Deflation.halts_zero_of_led (Nat.lt_irrefl 2) good first)

/-- The call with the tighter bound goes on for one more iteration. -/
theorem singularInto_firstValue_turningTensor :
    ∃ (after after' : Tensor ℝ × Tensor ℝ × Tensor ℝ) (later later' : Log)
      (f g : SingularFactors ℝ 2 2 2),
      Ends (singularInto turning 0 ⟨1 / 2, 1⟩ turningTensor)
        (turningTensor, twoZeros, turningTensor) #[] (.ok ()) after later ∧
      later[0]? = some (haltEvent 0 .converged 1) ∧
      Ends (singularInto turning 0 ⟨1 / 4, 2⟩ turningTensor)
        (turningTensor, twoZeros, turningTensor) #[] (.ok ()) after' later' ∧
      later'[0]? = some (haltEvent 0 .converged 2) ∧
      HoldFactors after f ∧ HoldFactors after' g ∧ f.s.get 0 ≤ g.s.get 0 ∧
      ∀ bound, (∀ x, √(turningMatrix.toMatrixᵀ *ᵥ x ⬝ᵥ turningMatrix.toMatrixᵀ *ᵥ x) ≤
          bound * √(x ⬝ᵥ x)) →
        f.s.get 0 ≤ bound ∧ g.s.get 0 ≤ bound := by
  obtain ⟨after, later, ends, spent⟩ := turningTensor_ends leading_turning_loose leading_rest_loose
  obtain ⟨after', later', ends', spent'⟩ :=
    turningTensor_ends leading_turning_tight leading_rest_tight
  obtain ⟨f, g, found⟩ := singularInto_firstValue (a := turningMatrix) ⟨rfl, rfl⟩ Nat.two_pos
    Nat.two_pos (by norm_num : (1 / 4 : ℝ) ≤ 1 / 2) ends ends'
  exact ⟨after, after', later, later', f, g, ends, spent, ends', spent', found⟩

end Linear
end RowMajor

import Mathlib
import RowMajor.Proofs.Linear.Budget
import RowMajor.Proofs.Singular.Squares
import RowMajor.Proofs.Singular.Unseen

/-! Calls for singular values and the sum of squares. Whether a call finds all components or
stops at one of them, those that it has written take the squares of their weights off the sum of
squares of the matrix. -/
namespace RowMajor.Linear
open InPlace (Ends)
open Matrix
variable {n m : Nat} {σ : Type}

/-- No condition is put on the start vectors or the limits. -/
theorem singularInto_splitsSquares (source : Source σ ℝ) (state : σ) (limits : PowerLimits ℝ)
    {t : Tensor ℝ} {a : Mat ℝ n m} (ht : t.Holds a) (targets : Tensor ℝ × Tensor ℝ × Tensor ℝ) :
    (∀ {log after later},
      Ends (singularInto source state limits t) targets log (.ok ()) after later →
        ∃ f : SingularFactors ℝ n m (min n m),
          HoldFactors after f ∧ SplitsSquares a f (min n m)) ∧
      ∀ {log after later c spent},
        Ends (singularInto source state limits t) targets log
          (.error (.notConverged c spent)) after later →
        c < min n m ∧ ∃ f : SingularFactors ℝ n m (min n m),
          HoldFactors after f ∧ SplitsSquares a f c := by
  obtain ⟨h, rfl⟩ := ht
  constructor
  · intro log after later ends
    obtain ⟨held, _, result, holds, _⟩ := exists_run h id ends
    have done := decompositionResult_eq_ok.mp result.symm
    rw [← Deflation.stage_all] at done holds
    exact ⟨_, holds, Deflation.splitsSquares_stage (Nat.le_refl _) done⟩
  · intro log after later c spent ends
    obtain ⟨held, _, result, holds, _⟩ := exists_run h id ends
    obtain ⟨_, failed, rfl, failing⟩ := failed_of_decompositionResult result
    rw [← Deflation.stage_all] at failing holds
    obtain ⟨done, _, same⟩ := Deflation.stage_of_failed (Nat.le_refl _) failing
    rw [same] at holds
    exact ⟨failed.isLt, _, holds, Deflation.splitsSquares_stage (Nat.le_of_lt failed.isLt) done⟩

/-- Draws zeros, but a one at the third draw. -/
noncomputable def thirdOne : Source Nat ℝ :=
  ⟨fun drawn => (if drawn = 2 then 1 else 0, drawn + 1)⟩

noncomputable def identityTensor : Tensor ℝ :=
  ⟨squareLayout, #[1, 0, 0, 1], 0, by decide⟩

noncomputable def identityMatrix : Mat ℝ 2 2 :=
  identityTensor.matrix rfl

theorem apply_identityMatrix (x : Vector ℝ 2) : identityMatrix.rowGram.apply x = x := by
  have identity : identityMatrix.toMatrix = 1 := by
    ext i j
    fin_cases i <;> fin_cases j <;> rfl
  have same : (identityMatrix.rowGram.apply x).get = x.get := by
    rw [Mat.get_apply, Mat.toMatrix_rowGram, identity, transpose_one, mul_one, one_mulVec]
  exact Vector.ext fun i small => congrFun same ⟨i, small⟩

/-- From zero the iteration collapses at once. -/
theorem identityMatrix_misses : identityMatrix.Misses thirdOne ⟨0, 1⟩ 0 := by
  let start := (thirdOne.vector 2 0).1
  let x := normalizeStart start
  have zero : x.get = 0 := by
    have drawn : start.get = 0 := by
      funext i
      fin_cases i <;> rfl
    obtain ⟨_, _, same⟩ := get_normalizeStart start
    rw [same, drawn, smul_zero]
  have stops := (stops_iff (identityMatrix.rowGram.apply x)).mpr
    ((congrArg Vector.get (apply_identityMatrix x)).trans zero)
  have led : (identityMatrix.rowGram.leading thirdOne ⟨0, 1⟩ 0).1 = some ⟨x, .collapsed, 1⟩ :=
    if_pos stops
  refine .left (Nat.lt_irrefl 2) led ?_
  rw [Mat.usable_applyTransposed, zero, mulVec_zero]
  exact absurd rfl

theorem leading_identityMatrix :
    (identityMatrix.rowGram.leading thirdOne ⟨0, 1⟩ 2).1 = none := by
  let start := (thirdOne.vector 2 2).1
  have drawn : start.get ≠ 0 := by
    intro zero
    have first : (1 : ℝ) = 0 := congrFun zero 0
    exact one_ne_zero first
  have unit : (normalizeStart start).get ⬝ᵥ (normalizeStart start).get = 1 := by
    rw [normalizeStart_of_ne_zero drawn]
    exact unit_dot_self drawn
  exact powerIterate_fixed (apply_identityMatrix _) unit (le_refl 0) 1 0

/-- The first component is blank, the second is not found. -/
theorem failed_identityMatrix (factors : SingularFactors ℝ 2 2 2) :
    (Deflation.run thirdOne ⟨0, 1⟩ 0 identityMatrix factors).failed = some 1 := by
  let first := Deflation.stage thirdOne ⟨0, 1⟩ 0 identityMatrix factors 1
  have untouched : Deflation.Untouched thirdOne 0 identityMatrix first 1 :=
    Deflation.untouched_stage factors (Nat.le_succ 1) fun c before => by
      rw [Nat.lt_one_iff.mp before]
      exact identityMatrix_misses
  have next : Deflation.run thirdOne ⟨0, 1⟩ 0 identityMatrix factors =
      Deflation.step thirdOne ⟨0, 1⟩ first 1 := by
    rw [← Deflation.stage_all]
    exact Deflation.stage_succ 0 identityMatrix factors 1
  rw [next]
  rcases Deflation.step_fails thirdOne ⟨0, 1⟩ 1 untouched.failed with done | ⟨failed, _⟩
  · obtain ⟨_, t, after, _, _, finds, _⟩ := Deflation.step_finds done
    cases finds with
    | right tall _ => exact absurd tall (Nat.lt_irrefl 2)
    | left _ here =>
        rw [untouched.work, untouched.state] at here
        have found := (congrArg Prod.fst here).symm.trans leading_identityMatrix
        cases found
  · exact failed

/-- A call that stops at the second of two components. -/
theorem identityTensor_stops : ∃ (after : Tensor ℝ × Tensor ℝ × Tensor ℝ) (later : Log),
    Ends (singularInto thirdOne 0 ⟨0, 1⟩ identityTensor) (identityTensor, twoZeros, identityTensor)
      #[] (.error (.notConverged 1 1)) after later := by
  have square : identityTensor.shape = [2, 2] := rfl
  have flat : twoZeros.shape = [2] := rfl
  let factors : SingularFactors ℝ 2 2 2 := ⟨identityMatrix, twoZeros.vector flat, identityMatrix⟩
  let done := Deflation.run thirdOne ⟨0, 1⟩ 0 identityMatrix factors
  have failed : done.failed = some 1 := failed_identityMatrix factors
  have run : Deflation.run thirdOne ⟨0, 1⟩ 0 (identityTensor.matrix square) factors = done := rfl
  refine ⟨_, _, (singularInto_ends_iff square square flat square run).mpr
    ⟨by decide, by decide, ?_, rfl, rfl⟩⟩
  rw [decompositionResult, failed]
  rfl

/-- The call that stops has taken off one component, the one with loose limits both. -/
theorem singularInto_splitsSquares_identityTensor :
    (∃ (after : Tensor ℝ × Tensor ℝ × Tensor ℝ) (later : Log) (f : SingularFactors ℝ 2 2 2),
      Ends (singularInto thirdOne 0 ⟨2, 1⟩ identityTensor)
        (identityTensor, twoZeros, identityTensor) #[] (.ok ()) after later ∧
        HoldFactors after f ∧ SplitsSquares identityMatrix f 2) ∧
    ∃ (after : Tensor ℝ × Tensor ℝ × Tensor ℝ) (later : Log) (f : SingularFactors ℝ 2 2 2),
      Ends (singularInto thirdOne 0 ⟨0, 1⟩ identityTensor)
        (identityTensor, twoZeros, identityTensor) #[] (.error (.notConverged 1 1)) after later ∧
        HoldFactors after f ∧ SplitsSquares identityMatrix f 1 := by
  have square : identityTensor.shape = [2, 2] := rfl
  have held : identityTensor.Holds identityMatrix := ⟨square, rfl⟩
  constructor
  · obtain ⟨u, s, v, later, ends⟩ := singularInto_succeeds thirdOne 0 ⟨2, 1⟩ square square
      (rfl : twoZeros.shape = [2]) square (by decide) (by decide) one_lt_two Nat.one_pos #[]
    obtain ⟨f, holds, splits⟩ := (singularInto_splitsSquares thirdOne 0 ⟨2, 1⟩ held _).1 ends
    exact ⟨_, later, f, ends, holds, splits⟩
  · obtain ⟨after, later, ends⟩ := identityTensor_stops
    obtain ⟨_, f, holds, splits⟩ := (singularInto_splitsSquares thirdOne 0 ⟨0, 1⟩ held _).2 ends
    exact ⟨after, later, f, ends, holds, splits⟩

end RowMajor.Linear

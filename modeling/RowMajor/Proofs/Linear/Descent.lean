import Mathlib
import RowMajor.Proofs.Linear.Squares
import RowMajor.Proofs.Singular.Dominant

/-! The order of the singular values that a call finds. They need not decrease, since a power
iteration may be accepted before it comes near a dominant direction. How far they can be from it
depends on the start vectors and on the reported numbers of iterations. -/
namespace RowMajor
open Matrix
variable {n m : Nat} {σ : Type}

namespace Linear
open InPlace (Ends)

/-- A later value exceeds an earlier one by no more than a factor that tends to one with the
number of iterations spent on the earlier one, if its start vector has a part along a dominant
direction of the working copy. -/
theorem singularInto_nearlyDescends {source : Source σ ℝ} {state : σ} {limits : PowerLimits ℝ}
    {t : Tensor ℝ} {a : Mat ℝ n m} (ht : t.Holds a)
    {targets after : Tensor ℝ × Tensor ℝ × Tensor ℝ} {log later : Log}
    (ends : Ends (singularInto source state limits t) targets log (.ok ()) after later) :
    ∃ held f : SingularFactors ℝ n m (min n m), HoldFactors targets held ∧ HoldFactors after f ∧
      (∀ c, 0 ≤ f.s.get c) ∧
      ∀ c : Fin (min n m), ∃ halt spent, 0 < spent ∧
        later[log.size + c]? = some (haltEvent c halt spent) ∧
        ∀ share, (Deflation.stage source limits state a held c).StartsAlong source share →
          ∀ d, c ≤ d → share * f.s.get d ^ (2 * spent) ≤ f.s.get c ^ (2 * spent) := by
  obtain ⟨h, rfl⟩ := ht
  obtain ⟨held, before, result, holds, _, events⟩ := exists_reported_run h id ends
  have done := decompositionResult_eq_ok.mp result.symm
  have splits := Deflation.splitsSquares_stage (Nat.le_refl _)
    ((congrArg Deflation.failed (Deflation.stage_all _ _ _)).trans done)
  rw [Deflation.stage_all] at splits
  refine ⟨held, _, before, holds, fun c => splits.nonneg c c.isLt, fun c => ?_⟩
  obtain ⟨halt, spent, report, long, largest⟩ := Deflation.nearlyLargest done c
  refine ⟨halt, spent, long, ?_, largest⟩
  rw [events, Array.getElem?_append_right (Nat.le_add_right _ _), Nat.add_sub_cancel_left]
  exact getElem?_haltEvents report

section Stages
variable (factors : SingularFactors ℝ 2 2 2)

theorem first_stretched :
    (Deflation.run slanted ⟨1 / 2, 1⟩ 0 stretchedMatrix factors).factors.s.get 0 =
      √(gain stretchedMatrix.toMatrix (fifths 3 4).get) := by
  obtain ⟨found, here⟩ := Deflation.foundBy_of_wide (Nat.lt_irrefl 2) (failed_stretched factors) 0
  have led := here.led.symm.trans (congrArg Prod.fst leading_stretchedMatrix)
  cases led
  exact here.weight

theorem second_stretched :
    (Deflation.run slanted ⟨1 / 2, 1⟩ 0 stretchedMatrix factors).factors.s.get 1 =
      √(gain stretchedRest.toMatrix (fifths 4 (-3)).get) := by
  have stage : Deflation.stage slanted ⟨1 / 2, 1⟩ 0 stretchedMatrix factors (1 : Fin 2) = _ :=
    stage_stretched factors
  obtain ⟨found, here⟩ := Deflation.foundBy_of_wide (Nat.lt_irrefl 2) (failed_stretched factors) 1
  have led := here.led
  have weight := here.weight
  rw [stage] at led weight
  cases led.symm.trans (congrArg Prod.fst leading_stretchedRest)
  exact weight

end Stages

theorem gain_stretchedMatrix (x : Fin 2 → ℝ) :
    gain stretchedMatrix.toMatrix x = 4 * x 0 ^ 2 + x 1 ^ 2 := by
  rw [toMatrix_stretchedMatrix]
  simp [gain, mulVec, dotProduct, Fin.sum_univ_two]
  ring

theorem gain_stretchedRest (x : Fin 2 → ℝ) :
    gain stretchedRest.toMatrix x = 73 / 625 * (4 * x 0 - 3 * x 1) ^ 2 := by
  rw [toMatrix_stretchedRest]
  simp [gain, mulVec, dotProduct, Fin.sum_univ_two]
  ring

theorem isDominant_stretchedMatrix : IsDominant stretchedMatrix.toMatrix ![1, 0] := by
  apply isDominant_of_gain_le
  · simp
  · intro x
    rw [gain_stretchedMatrix, gain_stretchedMatrix]
    simp [dotProduct, Fin.sum_univ_two]
    nlinarith [sq_nonneg (x 1)]

theorem isDominant_stretchedRest : IsDominant stretchedRest.toMatrix ![4 / 5, -3 / 5] := by
  apply isDominant_of_gain_le
  · norm_num [dotProduct, Fin.sum_univ_two]
  · intro x
    rw [gain_stretchedRest, gain_stretchedRest]
    simp [dotProduct, Fin.sum_univ_two]
    nlinarith [sq_nonneg (3 * x 0 + 4 * x 1)]

theorem ascends_stretched (factors : SingularFactors ℝ 2 2 2) :
    (Deflation.run slanted ⟨1 / 2, 1⟩ 0 stretchedMatrix factors).factors.s.get 0 <
      (Deflation.run slanted ⟨1 / 2, 1⟩ 0 stretchedMatrix factors).factors.s.get 1 := by
  rw [first_stretched, second_stretched]
  apply Real.sqrt_lt_sqrt (gain_nonneg _ _)
  rw [gain_stretchedMatrix, gain_stretchedRest, get_fifths, get_fifths]
  norm_num

/-- Both start vectors have a part along a dominant direction. -/
theorem startsAlong_stretched (factors : SingularFactors ℝ 2 2 2) (c : Fin 2) : ∃ share, 0 < share ∧
    (Deflation.stage slanted ⟨1 / 2, 1⟩ 0 stretchedMatrix factors c).StartsAlong
      slanted share := by
  fin_cases c
  · apply Deflation.exists_startsAlong (Nat.lt_irrefl 2) isDominant_stretchedMatrix
    show ![1, 0] ⬝ᵥ (slanted.vector 2 0).1.get ≠ 0
    rw [slanted, get_drawing]
    norm_num
  · show ∃ share, 0 < share ∧
      (Deflation.stage slanted ⟨1 / 2, 1⟩ 0 stretchedMatrix factors 1).StartsAlong
        slanted share
    rw [stage_stretched]
    apply Deflation.exists_startsAlong (Nat.lt_irrefl 2) isDominant_stretchedRest
    show ![4 / 5, -3 / 5] ⬝ᵥ (slanted.vector 2 2).1.get ≠ 0
    rw [slanted, get_drawing]
    norm_num

/-- The first iteration is accepted although the second axis has the larger part of its
vector, and so the larger value is left to the second component. -/
theorem singularInto_ascends_stretchedTensor :
    ∃ (after : Tensor ℝ × Tensor ℝ × Tensor ℝ) (later : Log) (held f : SingularFactors ℝ 2 2 2),
      Ends (singularInto slanted 0 ⟨1 / 2, 1⟩ stretchedTensor)
        (stretchedTensor, twoZeros, stretchedTensor) #[] (.ok ()) after later ∧
      HoldFactors (stretchedTensor, twoZeros, stretchedTensor) held ∧ HoldFactors after f ∧
      (∀ c : Fin 2, ∃ share, 0 < share ∧
        (Deflation.stage slanted ⟨1 / 2, 1⟩ 0 stretchedMatrix held c).StartsAlong slanted share) ∧
      f.s.get 0 < f.s.get 1 := by
  obtain ⟨after, later, ends⟩ := stretchedTensor_ends
  obtain ⟨held, before, _, holds, _⟩ := exists_run rfl id ends
  exact ⟨after, later, held, _, ends, before, holds, startsAlong_stretched held,
    ascends_stretched held⟩

theorem singularInto_nearlyDescends_stretchedTensor :
    ∃ (after : Tensor ℝ × Tensor ℝ × Tensor ℝ) (later : Log) (held f : SingularFactors ℝ 2 2 2),
      Ends (singularInto slanted 0 ⟨1 / 2, 1⟩ stretchedTensor)
        (stretchedTensor, twoZeros, stretchedTensor) #[] (.ok ()) after later ∧
      HoldFactors (stretchedTensor, twoZeros, stretchedTensor) held ∧ HoldFactors after f ∧
      (∀ c, 0 ≤ f.s.get c) ∧
      ∀ c : Fin 2, ∃ halt spent, 0 < spent ∧
        later[(#[] : Log).size + c]? = some (haltEvent c halt spent) ∧
        ∀ share, (Deflation.stage slanted ⟨1 / 2, 1⟩ 0 stretchedMatrix held c).StartsAlong
            slanted share →
          ∀ d, c ≤ d → share * f.s.get d ^ (2 * spent) ≤ f.s.get c ^ (2 * spent) := by
  obtain ⟨after, later, ends⟩ := stretchedTensor_ends
  obtain ⟨held, f, found⟩ := singularInto_nearlyDescends (a := stretchedMatrix) ⟨rfl, rfl⟩ ends
  exact ⟨after, later, held, f, ends, found⟩

end Linear
end RowMajor

import Mathlib
import RowMajor.Proofs.Singular.Budget
import RowMajor.Proofs.Singular.Decomposition

/-! The sum of the squares of all entries. Each component takes the square of its weight off
it, whatever start vector it was found from and however its power iteration stopped. -/
namespace RowMajor
open Matrix
variable {n m k : Nat} {σ : Type}

def sumSquares (w : Matrix (Fin n) (Fin m) ℝ) : ℝ :=
  ∑ i, ∑ j, w i j ^ 2

theorem sumSquares_transpose (w : Matrix (Fin n) (Fin m) ℝ) : sumSquares wᵀ = sumSquares w :=
  Finset.sum_comm

/-- A vector without its part along a unit vector. -/
theorem sum_sq_rest {l : Fin n → ℝ} (unit : l ⬝ᵥ l = 1) (x : Fin n → ℝ) :
    ∑ i, (x i - l i * (l ⬝ᵥ x)) ^ 2 = ∑ i, x i ^ 2 - (l ⬝ᵥ x) ^ 2 := by
  have terms (i : Fin n) : (x i - l i * (l ⬝ᵥ x)) ^ 2 =
      x i ^ 2 - 2 * (l ⬝ᵥ x) * (l i * x i) + (l ⬝ᵥ x) ^ 2 * (l i * l i) := by
    ring
  calc ∑ i, (x i - l i * (l ⬝ᵥ x)) ^ 2
      = ∑ i, x i ^ 2 - 2 * (l ⬝ᵥ x) * (l ⬝ᵥ x) + (l ⬝ᵥ x) ^ 2 * (l ⬝ᵥ l) := by
        simp only [terms, Finset.sum_add_distrib, Finset.sum_sub_distrib, ← Finset.mul_sum]
        rfl
    _ = ∑ i, x i ^ 2 - (l ⬝ᵥ x) ^ 2 := by
        rw [unit]
        ring

/-- What is left is orthogonal to the component, column by column. -/
theorem Triplet.IsComponent.sumSquares_rest {t : Triplet ℝ n m} {w : Matrix (Fin n) (Fin m) ℝ}
    (h : t.IsComponent w) : sumSquares (w - t.toMatrix) + t.sigma ^ 2 = sumSquares w := by
  by_cases weight : t.sigma = 0
  · rw [toMatrix_settled weight, weight, sub_zero, zero_pow two_ne_zero, add_zero]
  · have column (j : Fin m) : ∑ i, (w - t.toMatrix) i j ^ 2 =
        ∑ i, w i j ^ 2 - (wᵀ *ᵥ t.left.get) j ^ 2 := by
      have along : (wᵀ *ᵥ t.left.get) j = t.left.get ⬝ᵥ fun i => w i j := dotProduct_comm _ _
      rw [h.toMatrix_eq, along, ← sum_sq_rest (h.unit_left weight)]
      simp only [Matrix.sub_apply, vecMulVec_apply, along]
    have image : ∑ j, (wᵀ *ᵥ t.left.get) j ^ 2 = t.sigma ^ 2 := by
      calc ∑ j, (wᵀ *ᵥ t.left.get) j ^ 2
          = t.sigma ^ 2 * (t.right.get ⬝ᵥ t.right.get) := by
            rw [h.image, dotProduct, Finset.mul_sum]
            refine Finset.sum_congr rfl fun j _ => ?_
            rw [Pi.smul_apply, smul_eq_mul]
            ring
        _ = t.sigma ^ 2 := by rw [h.unit_right weight, mul_one]
    rw [← sumSquares_transpose, ← sumSquares_transpose w]
    simp only [sumSquares, transpose_apply, column, Finset.sum_sub_distrib, image]
    exact sub_add_cancel _ _

/-- The first components and the working copy make up the matrix, and their squares those of
the matrix. -/
structure TakenOff (a w : Matrix (Fin n) (Fin m) ℝ) (found : Fin k → Triplet ℝ n m)
    (count : Nat) : Prop where
  sum : a = w + ∑ c : Fin k, if (c : Nat) < count then (found c).toMatrix else 0
  squares : sumSquares a =
    sumSquares w + ∑ c : Fin k, if (c : Nat) < count then (found c).sigma ^ 2 else 0
  normal : ∀ c : Fin k, (c : Nat) < count → (found c).Normal

namespace TakenOff
variable {a w : Matrix (Fin n) (Fin m) ℝ} {found : Fin k → Triplet ℝ n m}

theorem start (a : Matrix (Fin n) (Fin m) ℝ) (found : Fin k → Triplet ℝ n m) :
    TakenOff a a found 0 where
  sum := by simp only [Nat.not_lt_zero, if_false, Finset.sum_const_zero, add_zero]
  squares := by simp only [Nat.not_lt_zero, if_false, Finset.sum_const_zero, add_zero]
  normal c before := (Nat.not_lt_zero c before).elim

theorem step {c : Fin k} {t : Triplet ℝ n m} (h : TakenOff a w found c) (next : t.IsComponent w) :
    TakenOff a (w - t.toMatrix) (Function.update found c t) (c + 1) where
  sum := by
    rw [sum_update_below found c t Triplet.toMatrix, add_comm _ t.toMatrix, ← add_assoc,
      sub_add_cancel]
    exact h.sum
  squares := by
    rw [sum_update_below found c t fun t => t.sigma ^ 2, add_comm _ (t.sigma ^ 2), ← add_assoc,
      next.sumSquares_rest]
    exact h.squares
  normal := update_below h.normal next.toNormal

end TakenOff

namespace Deflation
variable {source : Source σ ℝ} {limits : PowerLimits ℝ} {state : σ} {a : Mat ℝ n m}
  {factors : SingularFactors ℝ n m k}

theorem takenOff_stage (wide : ¬ m < n) {count : Nat} (h : count ≤ k)
    (done : (stage source limits state a factors count).failed = none) :
    TakenOff a.toMatrix (stage source limits state a factors count).work.toMatrix
      (stage source limits state a factors count).factors.triplet count := by
  induction count with
  | zero => exact TakenOff.start _ _
  | succ count ih =>
      obtain ⟨before, t, _, _, _, finds, same⟩ := stage_finds h done
      rw [same, accept, SingularFactors.triplet_record, Mat.toMatrix_deflate]
      exact (ih (Nat.le_of_succ_le h) before).step (finds.isComponent wide)

end Deflation

/-- The first `count` components, of which those with weight have directions of unit length and
the others none, take the squares of their weights off the sum of squares of the matrix. -/
structure SplitsSquares (a : Mat ℝ n m) (f : SingularFactors ℝ n m k) (count : Nat) : Prop where
  squares : (∑ i, ∑ j, (a.entry i j - ∑ c : Fin k,
      if (c : Nat) < count then f.s.get c * f.u.entry i c * f.v.entry j c else 0) ^ 2) =
    (∑ i, ∑ j, a.entry i j ^ 2) - ∑ c : Fin k, if (c : Nat) < count then f.s.get c ^ 2 else 0
  nonneg : ∀ c : Fin k, c < count → 0 ≤ f.s.get c
  unit : ∀ c : Fin k, c < count → 0 < f.s.get c →
    ∑ i, f.u.entry i c ^ 2 = 1 ∧ ∑ j, f.v.entry j c ^ 2 = 1
  zero : ∀ c : Fin k, c < count → f.s.get c = 0 →
    (∀ i, f.u.entry i c = 0) ∧ ∀ j, f.v.entry j c = 0

theorem TakenOff.splitsSquares {a w : Mat ℝ n m} {f : SingularFactors ℝ n m k} {count : Nat}
    (h : TakenOff a.toMatrix w.toMatrix f.triplet count) : SplitsSquares a f count where
  squares := by
    have rest (i : Fin n) (j : Fin m) : a.entry i j - (∑ c : Fin k,
        if (c : Nat) < count then f.s.get c * f.u.entry i c * f.v.entry j c else 0) =
          w.toMatrix i j := by
      have total := congrFun (congrFun h.sum i) j
      rw [Matrix.add_apply, Matrix.sum_apply, Mat.toMatrix_apply] at total
      rw [total, add_sub_assoc, add_eq_left, sub_eq_zero]
      refine Finset.sum_congr rfl fun c _ => ?_
      split
      · rw [Triplet.toMatrix, Matrix.smul_apply, vecMulVec_apply, smul_eq_mul, ← mul_assoc,
          SingularFactors.triplet, Mat.get_column, Mat.get_column]
      · rfl
    simp only [rest]
    exact eq_sub_of_add_eq h.squares.symm
  nonneg c before := (h.normal c before).nonneg
  unit c before weight := by
    have normal := h.normal c before
    have left := normal.unit_left (ne_of_gt weight)
    have right := normal.unit_right (ne_of_gt weight)
    simp only [dotProduct, SingularFactors.triplet, Mat.get_column, ← sq] at left right
    exact ⟨left, right⟩
  zero c before weightless := by
    have normal := h.normal c before
    have left := congrFun (normal.settled_left weightless)
    have right := congrFun (normal.settled_right weightless)
    simp only [SingularFactors.triplet, Mat.get_column] at left right
    exact ⟨left, right⟩

/-- The transposed of a tall matrix with exchanged sides. -/
theorem SplitsSquares.of_swap {a : Mat ℝ n m} {f : SingularFactors ℝ n m k} {count : Nat}
    (h : SplitsSquares a.transpose f.swap count) : SplitsSquares a f count where
  squares := by
    have whole := h.squares
    rw [Finset.sum_comm, Finset.sum_comm (f := fun j i => a.transpose.entry j i ^ 2)] at whole
    simp only [Mat.entry_transpose] at whole
    have product (i : Fin n) (j : Fin m) (c : Fin k) :
        f.s.get c * f.u.entry i c * f.v.entry j c = f.s.get c * f.v.entry j c * f.u.entry i c :=
      mul_right_comm _ _ _
    simp only [product]
    exact whole
  nonneg := h.nonneg
  unit c before weight := (h.unit c before weight).symm
  zero c before weightless := (h.zero c before weightless).symm

theorem Deflation.splitsSquares_stage {source : Source σ ℝ} {limits : PowerLimits ℝ} {state : σ}
    {a : Mat ℝ n m} {factors : SingularFactors ℝ n m k} {count : Nat} (h : count ≤ k)
    (done : (stage source limits state a factors count).failed = none) :
    SplitsSquares a (stage source limits state a factors count).factors count := by
  by_cases tall : m < n
  · have same := swap_stage tall source limits state a factors count
    have done' : (stage source limits state a.transpose factors.swap count).failed = none :=
      same ▸ done
    have swapped := (takenOff_stage (Nat.lt_asymm tall) h done').splitsSquares
    rw [← same] at swapped
    exact swapped.of_swap
  · exact (takenOff_stage tall h done).splitsSquares

end RowMajor

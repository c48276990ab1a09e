import Mathlib
import RowMajor.Proofs.Orthogonal.Projection

/-! Orthogonal factors of matrices with independent columns. The finished columns stay in the
span of the columns that they come from, so that something is left of every column, and no
length is zero. -/
namespace RowMajor.Orthogonal
open Matrix
variable {n : Nat}

theorem length_pos {a : Mat ℝ n n} {f : Orthogonal ℝ n} {j : Fin n}
    (nonzero : (reduced a f j).1.get ≠ 0) : 0 < length a f j :=
  (norm_pos_iff _).mpr nonzero

theorem get_column_eq_col (a : Mat ℝ n n) (k : Fin n) : (a.column k).get = a.toMatrix.col k :=
  funext fun i => Mat.get_column a i k

/-- The span of the columns of `a` before column `count`. -/
def spanBefore (a : Mat ℝ n n) (count : Nat) : Submodule ℝ (Fin n → ℝ) :=
  Submodule.span ℝ (a.toMatrix.col '' {i | (i : Nat) < count})

theorem spanBefore_mono (a : Mat ℝ n n) {early late : Nat} (le : early ≤ late) :
    spanBefore a early ≤ spanBefore a late :=
  Submodule.span_mono (Set.image_mono fun _ before => Nat.lt_of_lt_of_le before le)

theorem column_mem_spanBefore (a : Mat ℝ n n) {k : Fin n} {count : Nat} (before : k < count) :
    (a.column k).get ∈ spanBefore a count := by
  rw [get_column_eq_col]
  exact Submodule.subset_span ⟨k, before, rfl⟩

theorem column_notMem_spanBefore {a : Mat ℝ n n} (independent : LinearIndependent ℝ a.toMatrix.col)
    (j : Fin n) : (a.column j).get ∉ spanBefore a j := by
  rw [get_column_eq_col]
  exact independent.notMem_span_image (Nat.lt_irrefl j)

/-- The first `count` columns of both factors are finished. -/
structure Finished (a : Mat ℝ n n) (f : Orthogonal ℝ n) (count : Nat) : Prop where
  copied : Copied f count
  orthonormal : Orthonormal f.q count
  sum : ∀ k : Fin n, (k : Nat) < count →
    (a.column k).get = ∑ p, f.r.entry p k • (f.q.column p).get
  upper : ∀ p k : Fin n, k < p → f.r.entry p k = 0
  positive : ∀ k : Fin n, (k : Nat) < count → 0 < f.r.entry k k
  inside : ∀ k : Fin n, (k : Nat) < count → (f.q.column k).get ∈ spanBefore a count

namespace Finished
variable {a : Mat ℝ n n} {f : Orthogonal ℝ n} {j : Fin n}

theorem start (a : Mat ℝ n n) : Finished a (Orthogonal.start n) 0 where
  copied k none := absurd none (Nat.not_lt_zero k)
  orthonormal p _ none := absurd none (Nat.not_lt_zero p)
  sum k none := absurd none (Nat.not_lt_zero k)
  upper p k _ := Mat.entry_constant 0 p k
  positive k none := absurd none (Nat.not_lt_zero k)
  inside k none := absurd none (Nat.not_lt_zero k)

theorem isReduced (h : Finished a f j) : Reduced a f j j (reduced a f j) :=
  reduced_all h.copied h.orthonormal

/-- The projections that are taken off column `j`. -/
theorem removed_mem (h : Finished a f j) (r : Mat ℝ n n) :
    (∑ p : Fin n, if (p : Nat) < j then r.entry p j • (f.q.column p).get else 0) ∈
      spanBefore a j := by
  apply Submodule.sum_mem
  intro p _
  split
  · rename_i before
    exact Submodule.smul_mem _ _ (h.inside p before)
  · exact zero_mem _

theorem reduced_ne_zero (h : Finished a f j) (independent : LinearIndependent ℝ a.toMatrix.col) :
    (reduced a f j).1.get ≠ 0 := by
  intro nothing
  have sum := h.isReduced.sum
  rw [nothing, zero_add] at sum
  apply column_notMem_spanBefore independent j
  rw [sum]
  exact h.removed_mem _

theorem reduced_mem (h : Finished a f j) : (reduced a f j).1.get ∈ spanBefore a (j + 1) := by
  have sum := h.isReduced.sum
  rw [eq_sub_of_add_eq sum.symm]
  exact sub_mem (column_mem_spanBefore a (Nat.lt_succ_self j))
    (spanBefore_mono a (Nat.le_succ j) (h.removed_mem _))

/-- The diagonal entry in column `j` is the length that it is divided by. -/
theorem entry_r_diagonal (a : Mat ℝ n n) (f : Orthogonal ℝ n) (j : Fin n) :
    (column a f j).r.entry j j = length a f j :=
  (Mat.entry_put ..).trans (if_pos ⟨rfl, rfl⟩)

/-- Above the diagonal it holds the coefficients. -/
theorem entry_r_above (a : Mat ℝ n n) (f : Orthogonal ℝ n) {p j : Fin n} (before : p < j) :
    (column a f j).r.entry p j = (reduced a f j).2.r.entry p j :=
  (Mat.entry_put ..).trans (if_neg fun here => Fin.ne_of_lt before here.1)

theorem column_q_self (a : Mat ℝ n n) (f : Orthogonal ℝ n) (j : Fin n) :
    ((column a f j).q.column j).get = (length a f j)⁻¹ • (reduced a f j).1.get := by
  rw [column_q, if_pos rfl]
  exact get_unit _

theorem column_q_of_ne (a : Mat ℝ n n) (f : Orthogonal ℝ n) {j k : Fin n} (other : k ≠ j) :
    (column a f j).q.column k = f.q.column k := by
  rw [column_q, if_neg other]

section Step
variable (h : Finished a f j)
include h

theorem entry_r_elsewhere {p k : Fin n} (elsewhere : k = j → j < p) :
    (column a f j).r.entry p k = f.r.entry p k := by
  refine (Mat.entry_put ..).trans ((if_neg fun here => ?_).trans ?_)
  · exact Fin.ne_of_gt (elsewhere here.2) here.1
  · exact h.isReduced.others p k fun here =>
      Nat.lt_asymm here.2 (elsewhere here.1)

theorem sum_column_self (nonzero : (reduced a f j).1.get ≠ 0) :
    (a.column j).get = ∑ p, (column a f j).r.entry p j • ((column a f j).q.column p).get := by
  have positive := length_pos nonzero
  have terms (p : Fin n) : (column a f j).r.entry p j • ((column a f j).q.column p).get =
      (if (p : Nat) < j then (reduced a f j).2.r.entry p j • (f.q.column p).get else 0) +
        if p = j then (reduced a f j).1.get else 0 := by
    rcases lt_trichotomy p j with before | rfl | after
    · have small : (p : Nat) < j := before
      rw [entry_r_above a f before, column_q_of_ne a f (Fin.ne_of_lt before), if_pos small,
        if_neg (Fin.ne_of_lt before), add_zero]
    · rw [entry_r_diagonal, column_q_self, smul_smul, mul_inv_cancel₀ (ne_of_gt positive), one_smul,
        if_neg (Nat.lt_irrefl p), if_pos rfl, zero_add]
    · have large : ¬ (p : Nat) < j := Nat.lt_asymm after
      rw [h.entry_r_elsewhere fun _ => after, h.upper p j after, zero_smul, if_neg large,
        if_neg (Fin.ne_of_gt after), add_zero]
  rw [Finset.sum_congr rfl fun p _ => terms p, Finset.sum_add_distrib, Finset.sum_ite_eq',
    if_pos (Finset.mem_univ j), add_comm]
  exact h.isReduced.sum

theorem sum_column_of_lt {k : Fin n} (before : k < j) :
    (a.column k).get = ∑ p, (column a f j).r.entry p k • ((column a f j).q.column p).get := by
  rw [h.sum k before]
  apply Finset.sum_congr rfl
  intro p _
  rw [h.entry_r_elsewhere fun here => absurd here (Fin.ne_of_lt before)]
  by_cases now : p = j
  · rw [now, h.upper j k before, zero_smul, zero_smul]
  · rw [column_q_of_ne a f now]

theorem orthonormal_column (nonzero : (reduced a f j).1.get ≠ 0) :
    Orthonormal (column a f j).q (j + 1) := by
  -- What is left of column `j` is orthogonal to the earlier columns, and so is its direction.
  have outside (p : Fin n) (before : p < j) :
      ((column a f j).q.column p).get ⬝ᵥ ((column a f j).q.column j).get = 0 := by
    rw [column_q_of_ne a f (Fin.ne_of_lt before), column_q_self, dotProduct_smul,
      h.isReduced.outside p before, smul_zero]
  have unit : ((column a f j).q.column j).get ⬝ᵥ ((column a f j).q.column j).get = 1 := by
    rw [column_q, if_pos rfl]
    exact unit_dot_self nonzero
  intro p k hp hk
  rcases Nat.lt_succ_iff_lt_or_eq.mp hp with before | now
  · rcases Nat.lt_succ_iff_lt_or_eq.mp hk with left | last
    · rw [column_q_of_ne a f (Fin.ne_of_lt before), column_q_of_ne a f (Fin.ne_of_lt left)]
      exact h.orthonormal p k before left
    · obtain rfl : k = j := Fin.ext last
      rw [outside p before, if_neg (Fin.ne_of_lt before)]
  · obtain rfl : p = j := Fin.ext now
    rcases Nat.lt_succ_iff_lt_or_eq.mp hk with left | last
    · rw [dotProduct_comm, outside k left, if_neg (Fin.ne_of_gt left)]
    · obtain rfl : k = p := Fin.ext last
      rw [unit, if_pos rfl]

theorem step (independent : LinearIndependent ℝ a.toMatrix.col) :
    Finished a (column a f j) (j + 1) where
  copied := h.copied.column a
  orthonormal := h.orthonormal_column (h.reduced_ne_zero independent)
  sum k small := by
    rcases Nat.lt_succ_iff_lt_or_eq.mp small with before | now
    · exact h.sum_column_of_lt before
    · obtain rfl : k = j := Fin.ext now
      exact h.sum_column_self (h.reduced_ne_zero independent)
  upper p k below := by
    rw [h.entry_r_elsewhere fun here => here ▸ below]
    exact h.upper p k below
  positive k small := by
    rcases Nat.lt_succ_iff_lt_or_eq.mp small with before | now
    · rw [h.entry_r_elsewhere fun here => absurd here (Fin.ne_of_lt before)]
      exact h.positive k before
    · obtain rfl : k = j := Fin.ext now
      rw [entry_r_diagonal]
      exact length_pos (h.reduced_ne_zero independent)
  inside k small := by
    rcases Nat.lt_succ_iff_lt_or_eq.mp small with before | now
    · rw [column_q_of_ne a f (Fin.ne_of_lt before)]
      exact spanBefore_mono a (Nat.le_succ j) (h.inside k before)
    · obtain rfl : k = j := Fin.ext now
      rw [column_q_self]
      exact Submodule.smul_mem _ _ h.reduced_mem

end Step
end Finished

variable {a : Mat ℝ n n}

theorem finished_stage (independent : LinearIndependent ℝ a.toMatrix.col) {count : Nat}
    (bound : count ≤ n) : Finished a (stage a count) count :=
  loopTo_invariant (f := column a) (fun count f => Finished a f count) (.start a)
    (fun _ _ h => h.step independent) bound

theorem divisor_pos (independent : LinearIndependent ℝ a.toMatrix.col) (j : Fin n) :
    0 < divisor a j :=
  length_pos ((finished_stage independent (Nat.le_of_lt j.isLt)).reduced_ne_zero independent)

/-- The matrix `q` is orthogonal, `r` is upper triangular with positive diagonal, and `a` is
their product. -/
structure Factors (a q r : Mat ℝ n n) : Prop where
  orthogonal : q.toMatrixᵀ * q.toMatrix = 1
  product : a.toMatrix = q.toMatrix * r.toMatrix
  upper : ∀ i j, j < i → r.entry i j = 0
  positive : ∀ j, 0 < r.entry j j

theorem factors_run (independent : LinearIndependent ℝ a.toMatrix.col) :
    Factors a (run a).q (run a).r := by
  have done : Finished a (run a) n := by
    rw [← stage_all]
    exact finished_stage independent (Nat.le_refl n)
  constructor
  · ext p k
    have here := done.orthonormal p k p.isLt k.isLt
    rw [get_column_eq_col, get_column_eq_col] at here
    exact here
  · ext i k
    have here := congrFun (done.sum k k.isLt) i
    rw [Mat.get_column, Finset.sum_apply] at here
    rw [Mat.toMatrix_apply, here, Matrix.mul_apply]
    apply Finset.sum_congr rfl
    intro p _
    rw [Pi.smul_apply, Mat.get_column, smul_eq_mul, mul_comm]
    rfl
  · exact done.upper
  · exact fun j => done.positive j j.isLt

end RowMajor.Orthogonal

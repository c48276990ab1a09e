import Mathlib
import RowMajor.Proofs.Singular.Mirror
import RowMajor.Proofs.Singular.Peeled
import RowMajor.Proofs.Singular.Power

/-! Exact decompositions. If the start vectors are seen, the components that a run finds
make up the matrix, however early each of its power iterations stopped. -/
namespace RowMajor
open Matrix
variable {n m k : Nat} {σ : Type}

namespace Deflation
variable {source : Source σ ℝ} {limits : PowerLimits ℝ} {state : σ} {a : Mat ℝ n m}
  {factors : SingularFactors ℝ n m k}

/-- The next start vector is not annihilated by the Gram matrix of the working copy,
unless nothing is left of the copy. -/
def Sees (source : Source σ ℝ) (d : Deflation σ ℝ n m k) : Prop :=
  d.work.toMatrix ≠ 0 →
    if m < n then (d.work.columnGram.apply (source.vector m d.state).1).get ≠ 0
    else (d.work.rowGram.apply (source.vector n d.state).1).get ≠ 0

theorem sees_swap (tall : m < n) {d : Deflation σ ℝ n m k} (h : d.Sees source) :
    d.swap.Sees source := by
  intro nonzero
  have work : d.swap.work.toMatrix = d.work.toMatrixᵀ := d.work.toMatrix_transpose
  rw [work, ne_eq, transpose_eq_zero] at nonzero
  have gram : d.swap.work.rowGram = d.work.columnGram := d.work.rowGram_transpose
  rw [if_neg (Nat.lt_asymm tall), gram]
  have here := h nonzero
  rwa [if_pos tall] at here

theorem Finds.isComponent {d : Deflation σ ℝ n m k} {t : Triplet ℝ n m} {after : σ}
    (h : Finds source limits d t after) (wide : ¬ m < n) : t.IsComponent d.work.toMatrix := by
  cases h with
  | right tall _ => exact absurd tall wide
  | left _ here => exact Mat.isComponent_leading here

theorem Finds.sigma_ne_zero {d : Deflation σ ℝ n m k} {t : Triplet ℝ n m} {after : σ}
    (h : Finds source limits d t after) (wide : ¬ m < n) (sees : d.Sees source)
    (left : d.work.toMatrix ≠ 0) : t.sigma ≠ 0 := by
  have here := sees left
  rw [if_neg wide] at here
  cases h with
  | right tall _ => exact absurd tall wide
  | left _ found => exact Mat.leading_finds found here

theorem peeled_stage (wide : ¬ m < n)
    (sees : ∀ c : Fin k, (stage source limits state a factors c).Sees source) {count : Nat}
    (h : count ≤ k) (done : (stage source limits state a factors count).failed = none) :
    Peeled a.toMatrix (stage source limits state a factors count).work.toMatrix
      (stage source limits state a factors count).factors.triplet count := by
  induction count with
  | zero => exact Peeled.start _ _
  | succ count ih =>
      obtain ⟨before, t, _, _, _, finds, same⟩ := stage_finds h done
      rw [same, accept, SingularFactors.triplet_record, Mat.toMatrix_deflate]
      exact (ih (Nat.le_of_succ_le h) before).step (finds.isComponent wide)
        (finds.sigma_ne_zero wide (sees ⟨count, h⟩))

theorem failed_run_loose (loose : 1 < limits.epsilon) (budget : 0 < limits.maxIterations) :
    (run source limits state a factors).failed = none := by
  have leading {l : Nat} (b : Mat ℝ l l) (state : σ) :
      ∃ found after, b.leading source limits state = (some found, after) := by
    obtain ⟨epsilon, _ | iterations⟩ := limits
    · exact absurd budget (Nat.lt_irrefl 0)
    · obtain ⟨found, h⟩ := powerIterate_loose (b := b) loose iterations 0
        (normalizeStart (source.vector l state).1)
      exact ⟨found, _, Prod.ext h rfl⟩
  apply foldl_invariant fun _ (d : Deflation σ ℝ n m k) => d.failed = none
  · rfl
  · intro c d before
    rw [step, before, Option.isSome_none, if_neg Bool.false_ne_true]
    split
    · obtain ⟨found, after, h⟩ := leading d.work.columnGram d.state
      rw [h]
      rfl
    · obtain ⟨found, after, h⟩ := leading d.work.rowGram d.state
      rw [h]
      rfl

end Deflation

/-- The matrix is the sum of the components. Those of the rank have weight, with
directions that are orthonormal on the shorter side, and the others are zero. -/
structure IsDecomposition (a : Mat ℝ n m) (f : SingularFactors ℝ n m k) : Prop where
  sum : ∀ i j, a.entry i j = ∑ c, f.s.get c * f.u.entry i c * f.v.entry j c
  positive : ∀ c : Fin k, 0 < f.s.get c ↔ c < a.toMatrix.rank
  left : n ≤ m → ∀ c d, f.s.get c ≠ 0 → f.s.get d ≠ 0 →
    ∑ i, f.u.entry i c * f.u.entry i d = if c = d then 1 else 0
  right : m < n → ∀ c d, f.s.get c ≠ 0 → f.s.get d ≠ 0 →
    ∑ j, f.v.entry j c * f.v.entry j d = if c = d then 1 else 0
  rest : ∀ c : Fin k, a.toMatrix.rank ≤ c →
    f.s.get c = 0 ∧ (∀ i, f.u.entry i c = 0) ∧ ∀ j, f.v.entry j c = 0

theorem Peeled.sum_entry {a w : Mat ℝ n m} {f : SingularFactors ℝ n m k}
    (h : Peeled a.toMatrix w.toMatrix f.triplet k) (enough : a.toMatrix.rank ≤ k)
    (i : Fin n) (j : Fin m) : a.entry i j = ∑ c, f.s.get c * f.u.entry i c * f.v.entry j c := by
  have total := congrFun (congrFun h.sum i) j
  rw [h.rest_eq_zero enough, zero_add, Matrix.sum_apply, Mat.toMatrix_apply] at total
  rw [total]
  apply Finset.sum_congr rfl
  intro c _
  rw [if_pos c.isLt, Triplet.toMatrix, Matrix.smul_apply, vecMulVec_apply, smul_eq_mul,
    ← mul_assoc, SingularFactors.triplet, Mat.get_column, Mat.get_column]

theorem isDecomposition_of_peeled (wide : n ≤ m) {a w : Mat ℝ n m}
    {f : SingularFactors ℝ n m k} (enough : a.toMatrix.rank ≤ k)
    (h : Peeled a.toMatrix w.toMatrix f.triplet k) : IsDecomposition a f where
  sum := h.sum_entry enough
  positive := h.sigma_pos_iff
  left _ c d weight _ := by
    have here := h.left_dotProduct c d weight
    simpa only [dotProduct, SingularFactors.triplet, Mat.get_column] using here
  right tall := absurd tall (Nat.not_lt.mpr wide)
  rest c beyond := by
    obtain ⟨weightless, left, right⟩ := h.settled beyond
    exact ⟨weightless, fun i => (Mat.get_column f.u i c).symm.trans (congrFun left i),
      fun j => (Mat.get_column f.v j c).symm.trans (congrFun right j)⟩

/-- The transposed of a tall matrix with exchanged sides. -/
theorem IsDecomposition.of_swap (tall : m < n) {a : Mat ℝ n m} {f : SingularFactors ℝ n m k}
    (h : IsDecomposition a.transpose f.swap) : IsDecomposition a f where
  sum i j := by
    have here := h.sum j i
    rw [Mat.entry_transpose] at here
    rw [here]
    exact Finset.sum_congr rfl fun c _ => mul_right_comm _ _ _
  positive c := by
    have here := h.positive c
    rwa [Mat.toMatrix_transpose, rank_transpose] at here
  left wide := absurd tall (Nat.not_lt.mpr wide)
  right _ := h.left (Nat.le_of_lt tall)
  rest c beyond := by
    rw [← rank_transpose, ← Mat.toMatrix_transpose] at beyond
    obtain ⟨weightless, right, left⟩ := h.rest c beyond
    exact ⟨weightless, left, right⟩

theorem Deflation.run_isDecomposition {source : Source σ ℝ} {limits : PowerLimits ℝ} {state : σ}
    {a : Mat ℝ n m} {factors : SingularFactors ℝ n m (min n m)}
    (sees : ∀ c : Fin (min n m), (stage source limits state a factors c).Sees source)
    (done : (run source limits state a factors).failed = none) :
    IsDecomposition a (run source limits state a factors).factors := by
  rw [← stage_all] at done ⊢
  by_cases tall : m < n
  · -- Every stage of the tall matrix is one of its transposed, so that nothing is proved twice.
    have same := swap_stage tall source limits state a factors
    have sees' (c : Fin (min n m)) :
        (stage source limits state a.transpose factors.swap c).Sees source :=
      same c ▸ sees_swap tall (sees c)
    have done' : (stage source limits state a.transpose factors.swap (min n m)).failed = none :=
      same (min n m) ▸ done
    apply IsDecomposition.of_swap tall
    have peeled := peeled_stage (Nat.lt_asymm tall) sees' (Nat.le_refl _) done'
    have enough : a.transpose.toMatrix.rank ≤ min n m := by
      rw [Mat.toMatrix_transpose, rank_transpose]
      exact le_min (rank_le_height _) (rank_le_width _)
    have whole := isDecomposition_of_peeled (Nat.le_of_lt tall) enough peeled
    rwa [← same] at whole
  · exact isDecomposition_of_peeled (Nat.not_lt.mp tall)
      (le_min (rank_le_height _) (rank_le_width _)) (peeled_stage tall sees (Nat.le_refl _) done)

end RowMajor

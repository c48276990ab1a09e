import Mathlib
import RowMajor.Proofs.Cholesky.Rows
import RowMajor.Proofs.Matrix.Algebra

/-! Positive definite matrices are those whose radicands are positive, and the factor is their
root. The radicand of a row is the value of the quadratic form at a vector that the rows
before it do not see. -/
namespace RowMajor.Mat
open Matrix
variable {n : Nat}

/-- The symmetric matrix with the lower triangle of `a`. -/
def fromLower (a : Mat ℝ n n) : Matrix (Fin n) (Fin n) ℝ :=
  Matrix.of fun i j => if j ≤ i then a.entry i j else a.entry j i

theorem fromLower_of_le (a : Mat ℝ n n) {i j : Fin n} (le : j ≤ i) :
    a.fromLower i j = a.entry i j :=
  if_pos le

theorem fromLower_comm (a : Mat ℝ n n) (i j : Fin n) : a.fromLower i j = a.fromLower j i := by
  rcases lt_trichotomy i j with before | rfl | after
  · rw [fromLower_of_le a (Fin.le_of_lt before)]
    exact if_neg (Fin.not_le.mpr before)
  · rfl
  · rw [fromLower_of_le a (Fin.le_of_lt after)]
    exact (if_neg (Fin.not_le.mpr after)).symm

theorem fromLower_eq_toMatrix {a : Mat ℝ n n} (symmetric : a.toMatrix.IsSymm) :
    a.fromLower = a.toMatrix := by
  ext i j
  rcases le_total j i with le | le
  · exact fromLower_of_le a le
  · rw [fromLower_comm, fromLower_of_le a le]
    exact symmetric.apply i j

theorem remainder_eq (a l : Mat ℝ n n) (i j : Fin n) :
    a.remainder l i j = a.entry i j - ∑ k, if k < j then l.entry i k * l.entry j k else 0 :=
  ExactScalar.foldl_sub_if (· < j) (fun k => l.entry i k * l.entry j k) (a.entry i j)

section Rows
variable {a l : Mat ℝ n n} {p q : Fin n}

theorem HasRow.diagonal_pos (h : a.HasRow l q) (positive : 0 < a.remainder l q q) :
    0 < l.entry q q := by
  rw [h.diagonal]
  exact Real.sqrt_pos.mpr positive

/-- What was divided, or whose root was taken, comes back by multiplying. -/
theorem HasRow.mul_diagonal (hp : a.HasRow l p) (hq : a.HasRow l q) (le : q ≤ p)
    (positive : 0 < a.remainder l q q) : l.entry p q * l.entry q q = a.remainder l p q := by
  rcases Fin.lt_or_eq_of_le le with before | rfl
  · rw [hp.left q before]
    exact div_mul_cancel₀ _ (ne_of_gt (hq.diagonal_pos positive))
  · rw [hq.diagonal]
    exact Real.mul_self_sqrt (le_of_lt positive)

theorem sum_eq (hp : a.HasRow l p) (hq : a.HasRow l q) (le : q ≤ p)
    (positive : 0 < a.remainder l q q) : ∑ k, l.entry p k * l.entry q k = a.entry p q := by
  -- Beyond column `q` row `q` is zero.
  have cut (k : Fin n) : l.entry p k * l.entry q k =
      if (k : Nat) < q + 1 then l.entry p k * l.entry q k else 0 := by
    split
    · rfl
    · rename_i beyond
      rw [hq.right k (Nat.lt_of_not_le fun left => beyond (Nat.lt_succ_of_le left)), mul_zero]
  rw [Finset.sum_congr rfl fun k _ => cut k, ExactScalar.sum_below_succ,
    hp.mul_diagonal hq le positive, remainder_eq]
  exact add_sub_cancel _ _

/-- The products of the entries in the columns before `i` make up an entry, up to the radicand
if row `i` is the one in question. -/
theorem sum_below_eq {i : Fin n} (rows : ∀ p, a.HasRow l p)
    (positive : ∀ k < i, 0 < a.remainder l k k) (le : q ≤ p) (inside : p ≤ i) :
    (∑ k, if k < i then l.entry p k * l.entry q k else 0) =
      a.entry p q - if q = i then a.remainder l i i else 0 := by
  rcases Fin.lt_or_eq_of_le (Fin.le_trans le inside) with before | rfl
  · have all (k : Fin n) : (if k < i then l.entry p k * l.entry q k else 0) =
        l.entry p k * l.entry q k := by
      split
      · rfl
      · rename_i beyond
        rw [(rows q).right k (Fin.lt_of_lt_of_le before (Fin.not_lt.mp beyond)), mul_zero]
    rw [Finset.sum_congr rfl fun k _ => all k, sum_eq (rows p) (rows q) le (positive q before),
      if_neg (Fin.ne_of_lt before), sub_zero]
  · obtain rfl : p = q := Fin.le_antisymm inside le
    rw [if_pos rfl, remainder_eq]
    exact (sub_sub_cancel _ _).symm

/-- The columns before `i`. -/
def columnsBefore (l : Mat ℝ n n) (i : Fin n) : Matrix (Fin n) (Fin n) ℝ :=
  Matrix.of fun p k => if k < i then l.entry p k else 0

theorem columnsBefore_mul_transpose (l : Mat ℝ n n) (i p q : Fin n) :
    (l.columnsBefore i * (l.columnsBefore i)ᵀ) p q =
      ∑ k, if k < i then l.entry p k * l.entry q k else 0 := by
  rw [Matrix.mul_apply]
  apply Finset.sum_congr rfl
  intro k _
  simp only [columnsBefore, transpose_apply, of_apply]
  split
  · rfl
  · exact mul_zero 0

theorem fromLower_eq_add {i : Fin n} (rows : ∀ p, a.HasRow l p)
    (positive : ∀ k < i, 0 < a.remainder l k k) (hp : p ≤ i) (hq : q ≤ i) :
    a.fromLower p q = (l.columnsBefore i * (l.columnsBefore i)ᵀ) p q +
      if p = i ∧ q = i then a.remainder l i i else 0 := by
  rw [columnsBefore_mul_transpose]
  rcases le_total q p with le | le
  · have both : (p = i ∧ q = i) ↔ q = i :=
      ⟨And.right, fun last => ⟨Fin.le_antisymm hp (last ▸ le), last⟩⟩
    rw [fromLower_of_le a le, sum_below_eq rows positive le hp, if_congr both rfl rfl,
      sub_add_cancel]
  · have both : (p = i ∧ q = i) ↔ p = i :=
      ⟨And.left, fun last => ⟨last, Fin.le_antisymm hq (last ▸ le)⟩⟩
    simp only [mul_comm (l.entry p _)]
    rw [fromLower_comm, fromLower_of_le a le, sum_below_eq rows positive le hq,
      if_congr both rfl rfl, sub_add_cancel]

/-- At a vector that the columns before `i` do not see, and that ends at `i`, only the radicand
is left of the matrix. -/
theorem fromLower_mulVec {i : Fin n} {x : Fin n → ℝ} (rows : ∀ p, a.HasRow l p)
    (positive : ∀ k < i, 0 < a.remainder l k k) (ends : ∀ q, i < q → x q = 0)
    (unseen : (l.columnsBefore i)ᵀ *ᵥ x = 0) (hp : p ≤ i) :
    (a.fromLower *ᵥ x) p = if p = i then a.remainder l i i * x i else 0 := by
  have terms (q : Fin n) : a.fromLower p q * x q =
      (l.columnsBefore i * (l.columnsBefore i)ᵀ) p q * x q +
        if q = i then (if p = i then a.remainder l i i else 0) * x i else 0 := by
    rcases Fin.lt_or_ge i q with after | le
    · rw [ends q after, if_neg (Fin.ne_of_gt after), mul_zero, mul_zero, add_zero]
    · rw [fromLower_eq_add rows positive hp le, add_mul]
      by_cases last : q = i
      · simp only [last, and_true, if_true]
      · simp only [last, and_false, if_false, zero_mul]
  have nothing : ((l.columnsBefore i * (l.columnsBefore i)ᵀ) *ᵥ x) p = 0 := by
    rw [← mulVec_mulVec, unseen, mulVec_zero]
    rfl
  calc (a.fromLower *ᵥ x) p
      = ((l.columnsBefore i * (l.columnsBefore i)ᵀ) *ᵥ x) p +
          ∑ q, if q = i then (if p = i then a.remainder l i i else 0) * x i else 0 := by
        rw [mulVec, dotProduct, Finset.sum_congr rfl fun q _ => terms q, Finset.sum_add_distrib]
        rfl
    _ = if p = i then a.remainder l i i * x i else 0 := by
        rw [nothing, zero_add, Finset.sum_ite_eq', if_pos (Finset.mem_univ i), ite_mul, zero_mul]

/-- There are fewer columns before `i` than rows up to `i`. -/
theorem exists_unseen (l : Mat ℝ n n) (i : Fin n) :
    ∃ x : Fin n → ℝ, x ≠ 0 ∧ (∀ q, i < q → x q = 0) ∧ (l.columnsBefore i)ᵀ *ᵥ x = 0 := by
  -- Each row before `i` asks for one equation and each row after it for one zero. Row `i` asks
  -- for nothing, so that the system is singular.
  let system : Matrix (Fin n) (Fin n) ℝ := Matrix.of fun k q =>
    if k < i then l.entry q k else if i < k then (1 : Matrix (Fin n) (Fin n) ℝ) k q else 0
  have blank : ∀ q, system i q = 0 := fun q => by
    simp only [system, of_apply, lt_irrefl, if_false]
  obtain ⟨x, nonzero, solves⟩ :=
    exists_mulVec_eq_zero_iff.mpr (det_eq_zero_of_row_eq_zero i blank)
  refine ⟨x, nonzero, fun q after => ?_, ?_⟩
  · have row : system q = (1 : Matrix (Fin n) (Fin n) ℝ) q := by
      funext k
      simp only [system, of_apply, if_neg (Fin.lt_asymm after), if_pos after]
    have here := congrFun solves q
    rw [mulVec, row] at here
    simpa [dotProduct, one_apply] using here
  · funext k
    by_cases before : k < i
    · have row : (l.columnsBefore i)ᵀ k = system k := by
        funext q
        simp only [columnsBefore, transpose_apply, system, of_apply, if_pos before]
      exact (congrArg (· ⬝ᵥ x) row).trans (congrFun solves k)
    · have row : (l.columnsBefore i)ᵀ k = 0 := by
        funext q
        simp only [columnsBefore, transpose_apply, of_apply, if_neg before, Pi.zero_apply]
      exact (congrArg (· ⬝ᵥ x) row).trans (zero_dotProduct x)

end Rows

variable {a : Mat ℝ n n}

/-- A radicand is positive if those before it are, because the form is positive. -/
theorem radicand_pos_step {l : Mat ℝ n n} {i : Fin n} (rows : ∀ p, a.HasRow l p)
    (definite : a.fromLower.PosDef) (positive : ∀ k < i, 0 < a.remainder l k k) :
    0 < a.remainder l i i := by
  obtain ⟨x, nonzero, ends, unseen⟩ := exists_unseen l i
  have form : x ⬝ᵥ a.fromLower *ᵥ x = a.remainder l i i * (x i * x i) := by
    have terms (p : Fin n) : x p * (a.fromLower *ᵥ x) p =
        if p = i then a.remainder l i i * (x i * x i) else 0 := by
      rcases Fin.lt_or_ge i p with after | le
      · rw [ends p after, zero_mul, if_neg (Fin.ne_of_gt after)]
      · rw [fromLower_mulVec rows positive ends unseen le]
        split
        · rename_i last
          rw [last, mul_left_comm]
        · exact mul_zero _
    rw [dotProduct, Finset.sum_congr rfl fun p _ => terms p, Finset.sum_ite_eq',
      if_pos (Finset.mem_univ i)]
  have value : 0 < a.remainder l i i * (x i * x i) := by
    rw [← form]
    exact definite.dotProduct_mulVec_pos nonzero
  exact pos_of_mul_pos_left value (mul_self_nonneg (x i))

theorem radicand_pos_of_posDef (definite : a.fromLower.PosDef) (i : Fin n) : 0 < a.radicand i := by
  induction i using WellFoundedLT.induction with
  | ind i ih =>
      rw [radicand_eq]
      apply radicand_pos_step a.hasRow_cholesky definite
      intro k before
      rw [← radicand_eq]
      exact ih k before

/-- A lower triangular matrix with positive diagonal whose product with its transpose is `s`. -/
structure IsLowerRoot (s : Matrix (Fin n) (Fin n) ℝ) (l : Mat ℝ n n) : Prop where
  lower : ∀ i j, i < j → l.entry i j = 0
  positive : ∀ i, 0 < l.entry i i
  product : l.toMatrix * l.toMatrixᵀ = s

theorem isLowerRoot_cholesky (positive : ∀ i, 0 < a.radicand i) :
    IsLowerRoot a.fromLower a.cholesky where
  lower i := (a.hasRow_cholesky i).right
  positive i := (a.hasRow_cholesky i).diagonal_pos (a.radicand_eq i ▸ positive i)
  product := by
    have entries (p q : Fin n) (le : q ≤ p) :
        ∑ k, a.cholesky.entry p k * a.cholesky.entry q k = a.entry p q :=
      sum_eq (a.hasRow_cholesky p) (a.hasRow_cholesky q) le (a.radicand_eq q ▸ positive q)
    ext p q
    rw [Matrix.mul_apply]
    simp only [transpose_apply, toMatrix_apply]
    rcases le_total q p with le | le
    · rw [fromLower_of_le a le, entries p q le]
    · rw [fromLower_comm, fromLower_of_le a le, ← entries q p le]
      exact Finset.sum_congr rfl fun k _ => mul_comm _ _

theorem IsLowerRoot.posDef {s : Matrix (Fin n) (Fin n) ℝ} {l : Mat ℝ n n} (h : IsLowerRoot s l) :
    s.PosDef := by
  have det : l.toMatrix.det ≠ 0 := by
    rw [det_of_isLowerTriangular]
    · exact Finset.prod_ne_zero_iff.mpr fun i _ => ne_of_gt (h.positive i)
    · exact fun i j after => h.lower i j after
  have unit : IsUnit l.toMatrix := (isUnit_iff_isUnit_det _).mpr (isUnit_iff_ne_zero.mpr det)
  rw [← h.product, ← conjTranspose_eq_transpose_of_trivial]
  exact .mul_conjTranspose_self _ (vecMul_injective_of_isUnit unit)

/-- Every square root is taken of a positive number exactly for positive definite matrices. For
any other symmetric matrix some radicand is not positive, and up to the first of them nothing is
divided by zero. -/
theorem radicand_pos_iff : (∀ i, 0 < a.radicand i) ↔ a.fromLower.PosDef :=
  ⟨fun positive => (isLowerRoot_cholesky positive).posDef, radicand_pos_of_posDef⟩

end RowMajor.Mat

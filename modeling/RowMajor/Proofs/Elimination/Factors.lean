import Mathlib
import RowMajor.Proofs.Matrix.Algebra

/-! What exact elimination computes. The two triangular factors multiply to the matrix
in its final row order. Every pivot is largest in the rest of its column, which bounds
the multipliers and makes a zero pivot the mark of a column that is already clear. -/
namespace RowMajor
variable {α : Type} [ExactScalar α] {n : Nat}

namespace Mat

theorem abs_entry_le_pivotRow (a : Mat α n n) {i k : Fin n} (h : i ≤ k) :
    |a.entry k i| ≤ |a.entry (a.pivotRow i) i| := by
  let largest (count : Nat) (best : α × Fin n) : Prop :=
    (∀ k : Fin n, k < count → i ≤ k → |a.entry k i| ≤ best.1) ∧
      (best.1 = -1 ∨ best.1 = |a.entry best.2 i|)
  have done : ∃ best : α × Fin n, largest n best ∧ best.2 = a.pivotRow i := by
    refine ⟨_, ?_, rfl⟩
    apply foldl_invariant largest
    · exact ⟨fun k h => absurd h (Nat.not_lt_zero _), Or.inl rfl⟩
    · rintro j ⟨size, row⟩ ⟨bound, known⟩
      have earlier (k : Fin n) (h : (k : Nat) < j + 1) (other : k ≠ j) : (k : Nat) < j := by
        have := Fin.val_ne_of_ne other
        omega
      simp only [ExactScalar.abs_eq, ExactScalar.less_iff]
      split
      · split
        · rename_i larger
          refine ⟨fun k h le => ?_, Or.inr rfl⟩
          by_cases same : k = j
          · rw [same]
          · exact (bound k (earlier k h same) le).trans (le_of_lt larger)
        · rename_i smaller
          refine ⟨fun k h le => ?_, known⟩
          by_cases same : k = j
          · exact same ▸ le_of_not_gt smaller
          · exact bound k (earlier k h same) le
      · rename_i before
        refine ⟨fun k h le => bound k (earlier k h ?_) le, known⟩
        rintro rfl
        exact before le
  obtain ⟨best, ⟨bound, known⟩, row⟩ := done
  have here := bound k k.isLt h
  rcases known with none | some
  · exact absurd (here.trans_eq none) (not_le_of_gt (lt_of_lt_of_le neg_one_lt_zero (abs_nonneg _)))
  · rwa [some, row] at here

/-- In each of the first `count` columns, when its turn comes, no entry below the
diagonal is larger than the one on it. -/
def Dominated (a : Mat α n n) (count : Nat) : Prop :=
  ∀ q p : Fin n, q < count → q < p →
    |(a.eliminatedTo q).entry p q| ≤ |(a.eliminatedTo q).entry q q|

theorem Dominated.reorder {a : Mat α n n} {count : Nat} (h : a.Dominated count)
    {order : Fin n → Fin n} (fixed : ∀ i : Fin n, i < count → order i = i)
    (later : ∀ p : Fin n, count ≤ p → count ≤ order p) : (a.reorder order).Dominated count := by
  intro q p small below
  have keeps (p : Fin n) (le : q ≤ p) : q ≤ order p ∧ (q < p → q < order p) := by
    by_cases early : (p : Nat) < count
    · rw [fixed p early]
      exact ⟨le, id⟩
    · have late := later p (Nat.le_of_not_lt early)
      have after : q < order p := Nat.lt_of_lt_of_le small late
      exact ⟨Fin.le_of_lt after, fun _ => after⟩
  have moved : (a.reorder order).eliminatedTo q = (a.eliminatedTo q).reorder order :=
    eliminatedTo_reorder a (Nat.le_of_lt q.isLt)
      (fun i before => fixed i (Nat.lt_trans before small)) (fun p le => (keeps p le).1)
  rw [moved, entry_reorder, entry_reorder, fixed q small]
  exact h q (order p) small ((keeps p (Fin.le_of_lt below)).2 below)

end Mat

namespace Elimination

theorem dominated_stage (a : Mat α n n) {count : Nat} (bound : count ≤ n) :
    (a.reorder (stage a count).pivots.order).Dominated count := by
  induction count with
  | zero => exact fun q p small => absurd small (Nat.not_lt_zero _)
  | succ count ih =>
      let i : Fin n := ⟨count, bound⟩
      let k := (stage a i).matrix.pivotRow i
      have le : i ≤ k := Mat.le_pivotRow _ i
      have order_eq : (stage a (i + 1)).pivots.order =
          (stage a i).pivots.order ∘ Equiv.swap i k := by
        rw [pivots_stage_succ, pivoted, order_choose]
      have earlier : (a.reorder (stage a (i + 1)).pivots.order).Dominated i := by
        rw [order_eq, ← Mat.reorder_reorder]
        exact (ih (Nat.le_of_succ_le bound)).reorder (fun p before => swap_of_lt le before)
          (fun p after => le_swap le after)
      intro q p small below
      rcases Nat.lt_succ_iff_lt_or_eq.mp small with before | now
      · exact earlier q p before below
      · obtain rfl : q = i := Fin.ext now
        show |((a.reorder (stage a (i + 1)).pivots.order).eliminatedTo i).entry p i| ≤
          |((a.reorder (stage a (i + 1)).pivots.order).eliminatedTo i).entry i i|
        rw [pivots_stage_succ, ← matrix_pivoted, pivoted, matrix_choose, Mat.entry_reorder,
          Mat.entry_reorder, Equiv.swap_apply_left]
        exact Mat.abs_entry_le_pivotRow _ (le_swap le (Fin.le_of_lt below))

theorem dominated_run (a : Mat α n n) : (a.reorder (run a).pivots.order).Dominated n := by
  rw [← stage_all]
  exact dominated_stage a (Nat.le_refl n)

end Elimination

namespace Mat

/-- What is left of an entry before its turn: the products of the multipliers to its
left with the entries above it are gone. -/
theorem entry_eliminatedTo (b : Mat α n n) {count : Nat} {p q : Fin n} (row : count ≤ p)
    (col : count ≤ q) :
    (b.eliminatedTo count).entry p q = b.entry p q - ∑ k : Fin n, if k < count then
      (b.eliminatedTo n).entry p k * (b.eliminatedTo n).entry k q else 0 := by
  induction count with
  | zero => simp [eliminatedTo, loopTo]
  | succ count ih =>
      let i : Fin n := ⟨count, Nat.lt_of_lt_of_le row (Nat.le_of_lt p.isLt)⟩
      have below : i < p := row
      have right : i < q := col
      have left_final : (b.eliminatedTo n).entry p i = (b.eliminatedTo i).multiplier i p := by
        rw [entry_eliminatedTo_settled b (Or.inr (Nat.lt_succ_self i)) i.isLt (Nat.le_refl n),
          eliminatedTo_succ, entry_eliminate, if_pos below, if_pos rfl]
      have upper_final : (b.eliminatedTo n).entry i q = (b.eliminatedTo i).entry i q :=
        entry_eliminatedTo_settled b (Or.inl (Nat.le_refl i)) (Nat.le_of_lt i.isLt) (Nat.le_refl n)
      have earlier := ih (Nat.le_of_succ_le row) (Nat.le_of_succ_le col)
      calc (b.eliminatedTo (i + 1)).entry p q
          = (b.eliminatedTo i).entry p q -
              (b.eliminatedTo n).entry p i * (b.eliminatedTo n).entry i q := by
            rw [eliminatedTo_succ, entry_eliminate, if_pos below, if_neg (Fin.ne_of_gt right),
              if_pos right, left_final, upper_final]
        _ = _ := by
            rw [earlier, sub_sub]
            exact congrArg (b.entry p q - ·) (ExactScalar.sum_below_succ
              (fun k => (b.eliminatedTo n).entry p k * (b.eliminatedTo n).entry k q) i).symm

/-- A multiplier undoes the division by the pivot. If the pivot is zero, so is the
entry that was divided. -/
theorem multiplier_mul_pivot {b : Mat α n n} (h : b.Dominated n) {p q : Fin n} (below : q < p) :
    (b.eliminatedTo n).entry p q * (b.eliminatedTo n).entry q q = (b.eliminatedTo q).entry p q := by
  have pivot : (b.eliminatedTo n).entry q q = (b.eliminatedTo q).entry q q :=
    entry_eliminatedTo_settled b (Or.inl (Nat.le_refl q)) (Nat.le_of_lt q.isLt) (Nat.le_refl n)
  rw [entry_eliminatedTo_settled b (Or.inr (Nat.lt_succ_self q)) q.isLt (Nat.le_refl n), pivot,
    eliminatedTo_succ, entry_eliminate, if_pos below, if_pos rfl, multiplier]
  apply div_mul_cancel_of_imp
  intro zero
  have bound := h q p q.isLt below
  rwa [zero, abs_zero, abs_nonpos_iff] at bound

theorem entry_lower (lu : Mat α n n) (p q : Fin n) :
    lu.lower.entry p q = if q < p then lu.entry p q else if q = p then 1 else 0 :=
  entry_ofFn _ p q

theorem entry_upper (lu : Mat α n n) (p q : Fin n) :
    lu.upper.entry p q = if p ≤ q then lu.entry p q else 0 :=
  entry_ofFn _ p q

theorem lower_mulVec (lu : Mat α n n) (y : Fin n → α) (p : Fin n) :
    (lu.lower.toMatrix.mulVec y) p = (∑ k, if k < p then lu.entry p k * y k else 0) + y p := by
  have terms (k : Fin n) : lu.lower.toMatrix p k * y k =
      (if k < p then lu.entry p k * y k else 0) + if k = p then y p else 0 := by
    rw [toMatrix_apply, entry_lower]
    rcases lt_trichotomy k p with before | rfl | after
    · simp [before, ne_of_lt before]
    · simp
    · simp [lt_asymm after, ne_of_gt after]
  simp only [Matrix.mulVec, dotProduct, terms, Finset.sum_add_distrib, Finset.sum_ite_eq',
    Finset.mem_univ, if_true]

theorem upper_mulVec (lu : Mat α n n) (x : Fin n → α) (p : Fin n) :
    (lu.upper.toMatrix.mulVec x) p =
      lu.entry p p * x p + ∑ k, if p < k then lu.entry p k * x k else 0 := by
  have terms (k : Fin n) : lu.upper.toMatrix p k * x k =
      (if k = p then lu.entry p p * x p else 0) + if p < k then lu.entry p k * x k else 0 := by
    rw [toMatrix_apply, entry_upper]
    rcases lt_trichotomy k p with before | rfl | after
    · simp [not_le_of_gt before, ne_of_lt before, lt_asymm before]
    · simp
    · simp [le_of_lt after, ne_of_gt after, after]
  simp only [Matrix.mulVec, dotProduct, terms, Finset.sum_add_distrib, Finset.sum_ite_eq',
    Finset.mem_univ, if_true]

theorem lower_mul_upper {b : Mat α n n} (h : b.Dominated n) :
    (b.eliminatedTo n).lower.toMatrix * (b.eliminatedTo n).upper.toMatrix = b.toMatrix := by
  set f := b.eliminatedTo n with hf
  ext p q
  have column : (f.lower.toMatrix * f.upper.toMatrix) p q =
      (∑ k, if k < p then f.entry p k * f.upper.entry k q else 0) + f.upper.entry p q :=
    lower_mulVec f (fun k => f.upper.entry k q) p
  rw [column, toMatrix_apply]
  simp only [entry_upper]
  rcases le_or_gt p q with upper | lower
  · have terms (k : Fin n) :
        (if k < p then f.entry p k * (if k ≤ q then f.entry k q else 0) else 0) =
          if k < p then f.entry p k * f.entry k q else 0 := by
      split
      · rename_i before
        rw [if_pos (le_of_lt (lt_of_lt_of_le before upper))]
      · rfl
    have settled : f.entry p q = (b.eliminatedTo p).entry p q :=
      entry_eliminatedTo_settled b (Or.inl (Nat.le_refl p)) (Nat.le_of_lt p.isLt) (Nat.le_refl n)
    simp only [terms]
    rw [if_pos upper, settled, entry_eliminatedTo b (Nat.le_refl p) upper, ← hf]
    exact add_sub_cancel _ _
  · have terms (k : Fin n) :
        (if k < p then f.entry p k * (if k ≤ q then f.entry k q else 0) else 0) =
          if (k : Nat) < q + 1 then f.entry p k * f.entry k q else 0 := by
      by_cases left : k ≤ q
      · have : (k : Nat) < q + 1 := Nat.lt_succ_of_le left
        rw [if_pos (lt_of_le_of_lt left lower), if_pos left, if_pos this]
      · have : ¬ (k : Nat) < q + 1 := fun small => left (Nat.le_of_lt_succ small)
        rw [if_neg left, if_neg this, mul_zero, ite_self]
    simp only [terms]
    rw [if_neg (not_le_of_gt lower), add_zero, ExactScalar.sum_below_succ,
      multiplier_mul_pivot h lower, entry_eliminatedTo b (Nat.le_of_lt lower) (Nat.le_refl q), ← hf]
    exact add_sub_cancel _ _

theorem abs_lower_le_one {b : Mat α n n} (h : b.Dominated n) (p q : Fin n) :
    |(b.eliminatedTo n).lower.entry p q| ≤ 1 := by
  rw [entry_lower]
  split
  · rename_i below
    rw [entry_eliminatedTo_settled b (Or.inr (Nat.lt_succ_self q)) q.isLt (Nat.le_refl n),
      eliminatedTo_succ, entry_eliminate, if_pos below, if_pos rfl, multiplier, abs_div]
    exact div_le_one_of_le₀ (h q p q.isLt below) (abs_nonneg _)
  · split
    · exact le_of_eq abs_one
    · rw [abs_zero]
      exact zero_le_one

theorem det_lower (lu : Mat α n n) : lu.lower.toMatrix.det = 1 := by
  rw [Matrix.det_of_isLowerTriangular]
  · apply Finset.prod_eq_one
    intro i _
    rw [toMatrix_apply, entry_lower, if_neg (lt_irrefl i), if_pos rfl]
  · intro p q (after : p < q)
    rw [toMatrix_apply, entry_lower, if_neg (lt_asymm after), if_neg (ne_of_gt after)]

theorem det_upper (lu : Mat α n n) : lu.upper.toMatrix.det = ∏ i, lu.entry i i := by
  rw [Matrix.det_of_isUpperTriangular]
  · apply Finset.prod_congr rfl
    intro i _
    rw [toMatrix_apply, entry_upper, if_pos (le_refl i)]
  · intro p q (before : q < p)
    rw [toMatrix_apply, entry_upper, if_neg (not_le_of_gt before)]

end Mat

namespace Elimination

theorem lower_mul_upper_run (a : Mat α n n) :
    (run a).matrix.lower.toMatrix * (run a).matrix.upper.toMatrix =
      (a.reorder (run a).pivots.order).toMatrix := by
  rw [matrix_run]
  exact Mat.lower_mul_upper (dominated_run a)

/-- The product of the pivots is the determinant, up to the sign of the row order. -/
theorem prod_diagonal_run (a : Mat α n n) {σ : Equiv.Perm (Fin n)}
    (h : (run a).pivots.Follows σ) :
    ∏ i, (run a).matrix.entry i i = (Equiv.Perm.sign σ : α) * a.toMatrix.det := by
  rw [← Matrix.det_permute, ← Mat.det_upper, ← one_mul (Matrix.det _),
    ← Mat.det_lower (run a).matrix, ← Matrix.det_mul, lower_mul_upper_run, h.order_eq,
    Mat.toMatrix_reorder]

/-- No step that has something to clear divides by zero. -/
def DividesByNonzero (a : Mat α n n) : Prop :=
  ∀ i : Fin n, i + 1 < n → divisor a i ≠ 0

theorem entry_run_diagonal_ne_zero {a : Mat α n n} (invertible : IsUnit a.toMatrix) (i : Fin n) :
    (run a).matrix.entry i i ≠ 0 := by
  obtain ⟨σ, h⟩ := follows_run a
  have det : a.toMatrix.det ≠ 0 := ((Matrix.isUnit_iff_isUnit_det _).mp invertible).ne_zero
  have sign : (Equiv.Perm.sign σ : α) ≠ 0 := by
    rcases Int.units_eq_one_or (Equiv.Perm.sign σ) with plus | minus
    · simp [plus]
    · simp [minus]
  have product : ∏ i, (run a).matrix.entry i i ≠ 0 := by
    rw [prod_diagonal_run a h]
    exact mul_ne_zero sign det
  exact Finset.prod_ne_zero_iff.mp product i (Finset.mem_univ i)

theorem dividesByNonzero_of_isUnit {a : Mat α n n} (invertible : IsUnit a.toMatrix) :
    DividesByNonzero a := by
  intro i _
  rw [← entry_run_diagonal]
  exact entry_run_diagonal_ne_zero invertible i

end Elimination
end RowMajor

import Mathlib
import RowMajor.Matrix.Elimination
import RowMajor.Proofs.Elimination.Order
import RowMajor.Proofs.Scalar.Exact

/-! Matrices as matrices of algebra. With exact scalars the product is the product of
algebra, and multiplying by a permutation puts rows in order. -/
namespace RowMajor.Mat
variable {α : Type} {n m l : Nat}

def toMatrix (a : Mat α n m) : Matrix (Fin n) (Fin m) α :=
  Matrix.of a.entry

theorem toMatrix_apply (a : Mat α n m) (i : Fin n) (j : Fin m) : a.toMatrix i j = a.entry i j := rfl

theorem toMatrix_reorder (a : Mat α n m) (order : Fin n → Fin n) :
    (a.reorder order).toMatrix = a.toMatrix.submatrix order id :=
  Matrix.ext fun i j => entry_reorder a order i j

/-- One entry is put in each row, in a column that depends on the row. -/
theorem entry_foldl_put (a : Mat α n m) (column : Fin n → Fin m) (value : Fin n → α) (p : Fin n)
    (q : Fin m) : (Fin.foldl n (fun b i => b.put i (column i) (value i)) a).entry p q =
      if q = column p then value p else a.entry p q := by
  let partly (count : Nat) (b : Mat α n m) : Prop :=
    ∀ p q, b.entry p q = if p < count ∧ q = column p then value p else a.entry p q
  have done : partly n (Fin.foldl n (fun b i => b.put i (column i) (value i)) a) := by
    apply foldl_invariant partly
    · intro p q
      rw [if_neg (fun h => Nat.not_lt_zero _ h.1)]
    · intro i b h p q
      rw [entry_put, h p q]
      by_cases row : p = i
      · subst row
        simp
      · have same : (p : Nat) < i + 1 ↔ (p : Nat) < i := by
          have := Fin.val_ne_of_ne row
          omega
        simp [row, same]
  rw [done p q]
  simp only [p.isLt, true_and]

theorem entry_putColumn (a : Mat α n m) (j : Fin m) (column : Vector α n) (p : Fin n) (q : Fin m) :
    (a.putColumn j column).entry p q = if q = j then column.get p else a.entry p q :=
  entry_foldl_put a (fun _ => j) column.get p q

theorem column_putColumn (a : Mat α n m) (j q : Fin m) (column : Vector α n) :
    (a.putColumn j column).column q = if q = j then column else a.column q := by
  apply Vector.ext
  intro p h
  have here := entry_putColumn a j column ⟨p, h⟩ q
  rw [← get_column] at here
  split at here
  · rename_i same
    rw [if_pos same]
    exact here
  · rename_i other
    rw [if_neg other]
    exact here.trans (get_column a ⟨p, h⟩ q).symm

theorem entry_permutation [Scalar α] (pivots : Pivots n) (p q : Fin n) :
    (permutation pivots : Mat α n n).entry p q = if q = pivots.order p then 1 else 0 :=
  (entry_foldl_put _ pivots.rows.get (fun _ => 1) p q).trans (by rw [entry_constant]; rfl)

variable [ExactScalar α]

theorem permutation_mul (pivots : Pivots n) (a : Mat α n m) :
    (permutation pivots : Mat α n n).toMatrix * a.toMatrix = (a.reorder pivots.order).toMatrix := by
  ext i j
  simp only [Matrix.mul_apply, toMatrix_apply, entry_permutation, entry_reorder, ite_mul, one_mul,
    zero_mul, Finset.sum_ite_eq', Finset.mem_univ, if_true]

end RowMajor.Mat

import Mathlib
import RowMajor.Proofs.Elimination.ZeroPivot
import RowMajor.Proofs.Linear.Factor

/-! Tensors whose elimination meets a zero pivot. Nothing is refused: the factors, the
determinant and the inverse show it instead. -/
namespace RowMajor.Linear
open InPlace (Returns)
open Elementary (isNaN isInf)
variable {α : Type} {n : Nat}

/-- A pivot that is zero when its turn comes is left on the diagonal. The determinant is then
zero or no number, and no entry in that row of the inverse is finite. -/
theorem factorInPlace_showsZeroPivot [Elementary α] [TracesZero α] {t x : Tensor α}
    {a : Mat α n n} (ht : t.Holds a) (hx : x.shape = [n, n]) {i : Fin n}
    (zero : Scalar.isZero (Elimination.divisor a i) = true) :
    ∃ (pivots : Pivots n) (lu x' : Tensor α) (f mx : Mat α n n) (d : α),
      Returns factorInPlace t ⟨n, pivots⟩ lu ∧ lu.Holds f ∧
      Scalar.isZero (f.entry i i) = true ∧
      determinant lu pivots = .ok d ∧ (Scalar.isZero d = true ∨ isNaN d = true) ∧
      Returns (inverseInto lu pivots) x () x' ∧ x'.Holds mx ∧
      ∀ j, isInf (mx.entry i j) = true ∨ isNaN (mx.entry i j) = true := by
  obtain ⟨lu, factored, hlu⟩ := factorInPlace_returns ht
  obtain ⟨x', solved, hx'⟩ := inverseInto_returns (Elimination.run a).pivots hlu hx
  rw [← Elimination.entry_run_diagonal] at zero
  exact ⟨_, lu, x', _, _, _, factored, hlu, zero, determinant_eq_ok _ hlu,
    Mat.determinant_of_zero_pivot _ zero, solved, hx', Mat.inverse_of_zero_pivot _ zero⟩

/-- The second column is twice the first. -/
def dependentColumns : Tensor Float :=
  ⟨lateExchange.layout, #[1, 2, 3, 2, 4, 1, 4, 8, 5], 0, by decide⟩

theorem dependentColumns_zeroPivot : Scalar.isZero
    (Elimination.divisor (dependentColumns.matrix (rfl : _ = [3, 3])) 1) = true := by
  decide +kernel

theorem factorInPlace_showsZeroPivot_dependentColumns :
    Scalar.isZero (Elimination.divisor (dependentColumns.matrix (rfl : _ = [3, 3])) 1) = true ∧
    ∃ (pivots : Pivots 3) (lu x : Tensor Float) (f mx : Mat Float 3 3) (d : Float),
      Returns factorInPlace dependentColumns ⟨3, pivots⟩ lu ∧ lu.Holds f ∧
      Scalar.isZero (f.entry 1 1) = true ∧
      determinant lu pivots = .ok d ∧ (Scalar.isZero d = true ∨ isNaN d = true) ∧
      Returns (inverseInto lu pivots) dependentColumns () x ∧ x.Holds mx ∧
      ∀ j, isInf (mx.entry 1 j) = true ∨ isNaN (mx.entry 1 j) = true :=
  ⟨dependentColumns_zeroPivot,
    factorInPlace_showsZeroPivot ⟨rfl, rfl⟩ rfl dependentColumns_zeroPivot⟩

end RowMajor.Linear

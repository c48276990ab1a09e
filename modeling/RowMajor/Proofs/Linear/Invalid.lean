import Mathlib
import RowMajor.Proofs.Cholesky.Invalid
import RowMajor.Proofs.Linear.Factor

/-! Symmetric tensors that are not positive definite. Nothing is refused: the diagonal of the
factor shows it, at the latest in its last entry. -/
namespace RowMajor.Linear
open InPlace (Returns)
open Elementary (isNaN isInf)
variable {α : Type} {n : Nat}

/-- The diagonal holds the roots of the radicands. A radicand that is not positive leaves zero or
no number there, and no numbers in all later rows; so a positive entry, such as the last one,
vouches for its own radicand and all those before it. -/
theorem choleskyInto_showsNotPositive [Elementary α] [TracesInvalid α] {t x : Tensor α}
    {a : Mat α n n} (ht : t.Holds a) (hx : x.shape = [n, n]) :
    ∃ (x' : Tensor α) (l : Mat α n n), Returns (choleskyInto t) x () x' ∧ x'.Holds l ∧
      (∀ i, l.entry i i = Scalar.sqrt (a.radicand i)) ∧
      (∀ i, NotPositive (a.radicand i) →
        (isNaN (l.entry i i) = true ∨ Scalar.isZero (l.entry i i) = true) ∧
          ∀ k, i < k → isNaN (l.entry k k) = true) ∧
      ∀ k, Scalar.less 0 (l.entry k k) = true → ∀ i ≤ k, Scalar.less 0 (a.radicand i) = true := by
  obtain ⟨x', written, hx'⟩ := choleskyInto_returns ht hx
  refine ⟨x', _, written, hx', fun i => ?_, fun i h => ?_, fun k positive i le => ?_⟩
  · rw [Mat.radicand_eq]
    exact (a.hasRow_cholesky i).diagonal
  · have invalid := Mat.diagonal_of_notPositive h
    exact ⟨invalid, fun k before => Mat.isNaN_diagonal a.hasRow_cholesky invalid before⟩
  · exact Mat.radicand_positive positive le

/-- Its second radicand is zero, and the entry below it is infinite. -/
def semidefiniteCorner : Tensor Float :=
  ⟨lateExchange.layout, #[4, 2, 2, 2, 1, 3, 2, 3, 5], 0, by decide⟩

theorem semidefiniteCorner_radicand :
    NotPositive ((semidefiniteCorner.matrix (rfl : _ = [3, 3])).radicand 1) :=
  .inr (.inl (by decide +kernel))

theorem choleskyInto_showsNotPositive_semidefiniteCorner :
    ∃ (x : Tensor Float) (l : Mat Float 3 3),
      Returns (choleskyInto semidefiniteCorner) semidefiniteCorner () x ∧ x.Holds l ∧
      NotPositive ((semidefiniteCorner.matrix (rfl : _ = [3, 3])).radicand 1) ∧
      (isNaN (l.entry 1 1) = true ∨ Scalar.isZero (l.entry 1 1) = true) ∧
      isNaN (l.entry 2 2) = true := by
  obtain ⟨x, l, written, hx, _, shown, _⟩ :=
    choleskyInto_showsNotPositive (t := semidefiniteCorner) (x := semidefiniteCorner) ⟨rfl, rfl⟩ rfl
  obtain ⟨invalid, later⟩ := shown 1 semidefiniteCorner_radicand
  exact ⟨x, l, written, hx, semidefiniteCorner_radicand, invalid, later 2 (by decide)⟩

end RowMajor.Linear

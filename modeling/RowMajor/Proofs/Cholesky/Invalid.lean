import Mathlib
import RowMajor.Proofs.Cholesky.Rows
import RowMajor.Proofs.Scalar.Invalid

/-! A radicand that is not positive. It leaves zero or no number on the diagonal, so that the
entries below it are infinite or no numbers. Their squares are taken from the radicands of all
later rows, and none of these has a root. -/
namespace RowMajor.Mat
open Elementary (isNaN isInf)
variable {α : Type} [Elementary α] [TracesInvalid α] {n : Nat} {a l : Mat α n n} {i k : Fin n}

/-- From column `i` on, what is left of the radicand has gone to minus infinity or is no number. -/
theorem sunk_remainder (before : i < k)
    (lost : isInf (l.entry k i) = true ∨ isNaN (l.entry k i) = true) :
    Sunk (a.remainder l k k) := by
  let sunkFrom (count : Nat) (h : α) : Prop := i < count → Sunk h
  have done : sunkFrom n (a.remainder l k k) := by
    apply foldl_invariant sunkFrom
    · exact fun small => absurd small (Nat.not_lt_zero i)
    · intro j h earlier small
      rcases Nat.lt_succ_iff_lt_or_eq.mp small with behind | now
      · split
        · exact (earlier behind).sub _
        · exact earlier behind
      · obtain rfl : i = j := Fin.ext now
        rw [if_pos before]
        exact sunk_sub_square h lost
  exact done i.isLt

theorem isNaN_diagonal (rows : ∀ p, a.HasRow l p)
    (invalid : isNaN (l.entry i i) = true ∨ Scalar.isZero (l.entry i i) = true) (before : i < k) :
    isNaN (l.entry k k) = true := by
  have lost : isInf (l.entry k i) = true ∨ isNaN (l.entry k i) = true := by
    rw [(rows k).left i before]
    rcases invalid with undefined | zero
    · exact .inr (TracesInvalid.div_nan _ undefined)
    · exact TracesInvalid.div_zero _ zero
  rw [(rows k).diagonal]
  exact (sunk_remainder before lost).isNaN_sqrt

theorem diagonal_of_notPositive (h : NotPositive (a.radicand i)) :
    isNaN (a.cholesky.entry i i) = true ∨ Scalar.isZero (a.cholesky.entry i i) = true := by
  rw [(a.hasRow_cholesky i).diagonal, ← radicand_eq]
  exact h.sqrt

/-- A positive entry on the diagonal vouches for all radicands so far. -/
theorem radicand_positive (positive : Scalar.less 0 (a.cholesky.entry k k) = true) (le : i ≤ k) :
    Scalar.less 0 (a.radicand i) = true := by
  rw [TracesInvalid.positive_iff] at positive ⊢
  intro h
  apply positive
  have invalid := diagonal_of_notPositive h
  rcases Fin.lt_or_eq_of_le le with before | rfl
  · exact .of_invalid (.inl (isNaN_diagonal a.hasRow_cholesky invalid before))
  · exact .of_invalid invalid

end RowMajor.Mat

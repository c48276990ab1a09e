import Mathlib
import RowMajor.Proofs.Elimination.Solve
import RowMajor.Proofs.Scalar.Trace

/-! A pivot that is zero. It stays on the diagonal of the factors, so that the determinant meets
it as a factor and the inverse as a divisor. What they make of it is not undone by anything
that they do later. -/
namespace RowMajor
open Elementary (isNaN isInf)
variable {α : Type} {n : Nat}

namespace Mat

section Quotients
variable [Scalar α]

/-- The last thing that happens to an entry of its column is the division by the pivot. -/
theorem entry_backward_self (lu x : Mat α n n) (j p : Fin n) :
    ∃ y, (lu.backward j x).entry p j = y / lu.entry p p := by
  let divided (count : Nat) (y : Mat α n n) : Prop :=
    ∀ p : Fin n, count ≤ p → ∃ z, y.entry p j = z / lu.entry p p
  have done : divided 0 (lu.backward j x) := by
    apply foldr_invariant divided
    · exact fun p large => absurd p.isLt (Nat.not_lt_of_le large)
    · intro i y h p le
      rw [entry_put]
      by_cases same : p = i
      · subst same
        exact ⟨_, if_pos ⟨rfl, rfl⟩⟩
      · have elsewhere : ¬ (p = i ∧ j = j) := fun here => same here.1
        rw [if_neg elsewhere,
          entry_substitute_of_ne lu _ (decide_eq_false (Fin.lt_irrefl i)) elsewhere]
        have apart := Fin.val_ne_of_ne same
        exact h p (by omega)
  exact done p (Nat.zero_le p)

/-- Every entry of the inverse is a number over the pivot of its row. -/
theorem entry_inverse (lu : Mat α n n) (pivots : Pivots n) (p q : Fin n) :
    ∃ y, (lu.inverse pivots).entry p q = y / lu.entry p p := by
  let divided (count : Nat) (x : Mat α n n) : Prop :=
    ∀ q : Fin n, q < count → ∃ y, x.entry p q = y / lu.entry p p
  have done : divided n (lu.inverse pivots) := by
    apply foldl_invariant divided
    · exact fun q small => absurd small (Nat.not_lt_zero q)
    · intro j x h q small
      by_cases same : q = j
      · subst same
        exact entry_backward_self lu _ q p
      · rw [entry_backward_of_ne lu _ same, entry_forward_of_ne lu pivots x same]
        have apart := Fin.val_ne_of_ne same
        exact h q (by omega)
  exact done q q.isLt

end Quotients

variable [Elementary α] [TracesZero α] {lu : Mat α n n} {i : Fin n}

theorem inverse_of_zero_pivot (pivots : Pivots n) (zero : Scalar.isZero (lu.entry i i) = true)
    (q : Fin n) : isInf ((lu.inverse pivots).entry i q) = true ∨
      isNaN ((lu.inverse pivots).entry i q) = true := by
  obtain ⟨y, quotient⟩ := lu.entry_inverse pivots i q
  rw [quotient]
  exact TracesZero.div_zero y zero

/-- From the zero on, the product of the pivots is zero or no number. -/
theorem determinant_of_zero_pivot (pivots : Pivots n)
    (zero : Scalar.isZero (lu.entry i i) = true) :
    Scalar.isZero (lu.determinant pivots) = true ∨ isNaN (lu.determinant pivots) = true := by
  let lost (count : Nat) (product : α) : Prop :=
    i < count → Scalar.isZero product = true ∨ isNaN product = true
  have done : lost n (lu.determinant pivots) := by
    apply foldl_invariant lost
    · exact fun small => absurd small (Nat.not_lt_zero i)
    · intro j product h small
      rcases Nat.lt_succ_iff_lt_or_eq.mp small with before | now
      · rcases h before with none | undefined
        · exact TracesZero.zero_mul _ none
        · exact .inr (TracesZero.nan_mul _ undefined)
      · obtain rfl : i = j := Fin.ext now
        exact TracesZero.mul_zero _ zero
  exact done i.isLt

end Mat
end RowMajor

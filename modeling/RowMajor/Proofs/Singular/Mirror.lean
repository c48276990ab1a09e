import Mathlib
import RowMajor.Proofs.Matrix.Transposed
import RowMajor.Proofs.Singular.Kernel
import RowMajor.Proofs.Singular.Stage

/-! Tall matrices lying on their side. With exact scalars a tall matrix is decomposed
as its transposed, with the two sides of every component exchanged. -/
namespace RowMajor
open Matrix
variable {α : Type} {n m k : Nat} {σ : Type}

def Triplet.swap (t : Triplet α n m) : Triplet α m n :=
  ⟨t.sigma, t.right, t.left⟩

def SingularFactors.swap (f : SingularFactors α n m k) : SingularFactors α m n k :=
  ⟨f.v, f.s, f.u⟩

theorem SingularFactors.swap_record (f : SingularFactors α n m k) (c : Fin k) (t : Triplet α n m) :
    (f.record c t).swap = f.swap.record c t.swap := rfl

theorem Mat.toMatrix_transpose (a : Mat α n m) : a.transpose.toMatrix = a.toMatrixᵀ :=
  Matrix.ext fun j i => entry_transpose a i j

section Transpose
variable [Scalar α]

theorem Triplet.settle_swap (t : Triplet α n m) : t.settle.swap = t.swap.settle := by
  unfold settle
  by_cases weightless : Scalar.isZero t.sigma
  · rw [if_pos weightless, if_pos (show Scalar.isZero t.swap.sigma from weightless)]
    rfl
  · rw [if_neg weightless, if_neg (show ¬ Scalar.isZero t.swap.sigma from weightless)]

namespace Mat

theorem applyTransposed_transpose (a : Mat α n m) (x : Vector α m) :
    a.transpose.applyTransposed x = a.image x := by
  simp only [applyTransposed, image, entry_transpose]

theorem tripletOfRight_swap (a : Mat α n m) (x : Vector α m) :
    (a.tripletOfRight x).swap = a.transpose.tripletOfLeft x := by
  rw [tripletOfRight, tripletOfLeft, applyTransposed_transpose, Triplet.settle_swap]
  rfl

end Mat
end Transpose

variable [ExactScalar α]

theorem Mat.deflate_transpose (a : Mat α n m) (t : Triplet α n m) :
    (a.deflate t).transpose = a.transpose.deflate t.swap := by
  apply ext_entry
  intro j i
  rw [entry_transpose, deflate, deflate, entry_ofFn, entry_ofFn, entry_transpose, Triplet.swap,
    mul_right_comm]

namespace Deflation
variable {source : Source σ α} {limits : PowerLimits α}

def swap (d : Deflation σ α n m k) : Deflation σ α m n k :=
  ⟨d.work.transpose, d.state, d.factors.swap, d.halts, d.failed⟩

theorem swap_accept (d : Deflation σ α n m k) (c : Fin k) (state : σ) (t : Triplet α n m)
    (halt : Halt) (iterations : Nat) :
    (d.accept c state t halt iterations).swap = d.swap.accept c state t.swap halt iterations := by
  simp only [swap, accept, Mat.deflate_transpose, SingularFactors.swap_record]

theorem swap_step (tall : m < n) (d : Deflation σ α n m k) (c : Fin k) :
    (step source limits d c).swap = step source limits d.swap c := by
  have wide : ¬ n < m := Nat.lt_asymm tall
  have gram : d.swap.work.rowGram = d.work.columnGram := d.work.rowGram_transpose
  by_cases failed : d.failed.isSome
  · rw [step, step, if_pos failed, if_pos (show d.swap.failed.isSome from failed)]
  · rw [step, step, if_neg failed, if_neg (show ¬ d.swap.failed.isSome from failed), if_pos tall,
      if_neg wide, gram]
    rcases found : d.work.columnGram.leading source limits d.state with ⟨_ | run, state⟩
    · rw [show d.swap.state = d.state from rfl, found]
      rfl
    · rw [show d.swap.state = d.state from rfl, found]
      simp only [swap_accept, Mat.tripletOfRight_swap]
      rfl

theorem swap_stage (tall : m < n) (source : Source σ α) (limits : PowerLimits α) (state : σ)
    (a : Mat α n m) (factors : SingularFactors α n m k) (count : Nat) :
    (stage source limits state a factors count).swap =
      stage source limits state a.transpose factors.swap count :=
  loopTo_map swap (swap_step tall) _ count

end Deflation
end RowMajor

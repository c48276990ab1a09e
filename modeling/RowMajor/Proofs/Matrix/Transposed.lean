import Mathlib
import RowMajor.Matrix.Basic

/-! Products and transposes of matrices. Every entry of a product adds its terms in the order
of the inner index, from the same start, on whichever side the factors stand, so that only the
two numbers in a term need to be exchanged: no sum is ever reordered. -/
namespace RowMajor.Mat
variable {α : Type} {n m l : Nat}

theorem entry_transpose (a : Mat α n m) (i : Fin n) (j : Fin m) :
    a.transpose.entry j i = a.entry i j :=
  entry_ofFn _ j i

theorem transpose_transpose (a : Mat α n m) : a.transpose.transpose = a :=
  ext_entry fun i j => by rw [entry_transpose, entry_transpose]

variable [Scalar α]

theorem rowGram_transpose (a : Mat α n m) : a.transpose.rowGram = a.columnGram := by
  simp only [rowGram, columnGram, entry_transpose]

section Commutative
variable (comm : ∀ x y : α, x * y = y * x)
include comm

theorem productEntry_transpose (a : Mat α l n) (b : Mat α n m) (i : Fin l) (j : Fin m) :
    b.transpose.productEntry a.transpose j i = a.productEntry b i j := by
  simp only [productEntry, entry_transpose, comm (b.entry _ j)]

theorem transpose_product (a : Mat α l n) (b : Mat α n m) :
    (a.product b).transpose = b.transpose.product a.transpose := by
  apply ext_entry
  intro j i
  rw [entry_transpose, product, entry_ofFn, product, entry_ofFn, productEntry_transpose comm]

theorem entry_rowGram_comm (a : Mat α n m) (i j : Fin n) :
    a.rowGram.entry i j = a.rowGram.entry j i := by
  simp only [rowGram, entry_ofFn, comm (a.entry i _)]

theorem entry_columnGram_comm (a : Mat α n m) (i j : Fin m) :
    a.columnGram.entry i j = a.columnGram.entry j i := by
  rw [← rowGram_transpose, entry_rowGram_comm comm]

end Commutative

end RowMajor.Mat

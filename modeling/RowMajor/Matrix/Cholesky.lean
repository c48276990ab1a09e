import RowMajor.Matrix.Basic

/-! The lower triangular factor of a symmetric positive definite matrix. Only the
lower triangle of the matrix is read. A radicand that is not positive is not
noticed: it leaves entries that are no numbers. -/
namespace RowMajor.Mat
variable {α : Type} [Scalar α] {n : Nat}

/-- What is left of the entry at `(i, j)` after the columns before `j`. -/
def remainder (a l : Mat α n n) (i j : Fin n) : α :=
  Fin.foldl n (fun h k => if k < j then h - l.entry i k * l.entry j k else h) (a.entry i j)

def choleskyRow (a l : Mat α n n) (i : Fin n) : Mat α n n :=
  let divide (l : Mat α n n) (j : Fin n) : Mat α n n :=
    if j < i then l.put i j (a.remainder l i j / l.entry j j) else l
  let l := Fin.foldl n divide l
  l.put i i (Scalar.sqrt (a.remainder l i i))

/-- The factor, row by row. -/
def cholesky (a : Mat α n n) : Mat α n n :=
  Fin.foldl n a.choleskyRow (constant n n 0)

end RowMajor.Mat

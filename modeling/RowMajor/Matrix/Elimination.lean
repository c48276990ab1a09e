import RowMajor.Matrix.Basic
import RowMajor.Matrix.Pivots

/-! Elimination with partial pivoting, in place. The multipliers of the unit lower
factor stay where they clear an entry; the upper factor is what is left. A zero
pivot is not noticed: it leaves entries that are no finite numbers. -/
namespace RowMajor
variable {α : Type} [Scalar α] {n : Nat}

namespace Mat

/-- The first row from `i` on whose entry in column `i` is largest. Entries that
compare with nothing are passed over. -/
def pivotRow (a : Mat α n n) (i : Fin n) : Fin n :=
  let look (best : α × Fin n) (k : Fin n) : α × Fin n :=
    if i ≤ k then
      let size := Scalar.abs (a.entry k i)
      if Scalar.less best.1 size then (size, k) else best
    else best
  (Fin.foldl n look (-1, i)).2

/-- Puts the multiplier in place and takes row `i` that often from the rest of row `j`. -/
def clear (a : Mat α n n) (i j : Fin n) : Mat α n n :=
  let factor := a.entry j i / a.entry i i
  let reduce (a : Mat α n n) (k : Fin n) : Mat α n n :=
    if i < k then a.put j k (a.entry j k - factor * a.entry i k) else a
  Fin.foldl n reduce (a.put j i factor)

/-- Clears column `i` below the diagonal. -/
def eliminate (a : Mat α n n) (i : Fin n) : Mat α n n :=
  Fin.foldl n (fun a j => if i < j then a.clear i j else a) a

end Mat

/-- An elimination under way: the matrix, the row order, and the exchanges made. -/
structure Elimination (α : Type) (n : Nat) where
  matrix : Mat α n n
  pivots : Pivots n
  exchanges : List (Fin n × Fin n)

namespace Elimination

def start (a : Mat α n n) : Elimination α n :=
  ⟨a, .identity n, []⟩

def exchange (e : Elimination α n) (i k : Fin n) : Elimination α n where
  matrix := e.matrix.exchangeRows i k
  pivots := e.pivots.exchange i k
  exchanges := e.exchanges ++ [(i, k)]

def step (e : Elimination α n) (i : Fin n) : Elimination α n :=
  let k := e.matrix.pivotRow i
  let e := if k = i then e else e.exchange i k
  { e with matrix := e.matrix.eliminate i }

def run (a : Mat α n n) : Elimination α n :=
  Fin.foldl n step (start a)

end Elimination

namespace Mat

def lowerEntry (lu : Mat α n n) (i j : Fin n) : α :=
  if j < i then lu.entry i j else if j = i then 1 else 0

def upperEntry (lu : Mat α n n) (i j : Fin n) : α :=
  if i ≤ j then lu.entry i j else 0

/-- The unit lower factor held below the diagonal. -/
def lower (lu : Mat α n n) : Mat α n n :=
  ofFn lu.lowerEntry

/-- The upper factor held on and above the diagonal. -/
def upper (lu : Mat α n n) : Mat α n n :=
  ofFn lu.upperEntry

/-- The matrix with a one at `(i, rows[i])` and zeros elsewhere. -/
def permutation (pivots : Pivots n) : Mat α n n :=
  Fin.foldl n (fun p i => p.put i (pivots.rows.get i) 1) (constant n n 0)

def determinant (lu : Mat α n n) (pivots : Pivots n) : α :=
  Fin.foldl n (fun acc i => acc * lu.entry i i) pivots.sign

/-- Takes the multiples of the entries `k` of column `j` that `row` selects from
the entry at `(i, j)`. -/
def substitute (lu : Mat α n n) (j i : Fin n) (selects : Fin n → Bool) (x : Mat α n n) :
    Mat α n n :=
  let reduce (x : Mat α n n) (k : Fin n) : Mat α n n :=
    if selects k then x.put i j (x.entry i j - lu.entry i k * x.entry k j) else x
  Fin.foldl n reduce x

/-- Solves with the unit lower factor for column `j` of the permutation. -/
def forward (lu : Mat α n n) (pivots : Pivots n) (j : Fin n) (x : Mat α n n) : Mat α n n :=
  let solve (x : Mat α n n) (i : Fin n) : Mat α n n :=
    let x := if pivots.rows.get i = j then x.put i j 1 else x
    lu.substitute j i (· < i) x
  Fin.foldl n solve x

/-- Solves with the upper factor, from the last row to the first. -/
def backward (lu : Mat α n n) (j : Fin n) (x : Mat α n n) : Mat α n n :=
  let solve (i : Fin n) (x : Mat α n n) : Mat α n n :=
    let x := lu.substitute j i (i < ·) x
    x.put i j (x.entry i j / lu.entry i i)
  Fin.foldr n solve x

/-- The inverse of the factored matrix, column by column. -/
def inverse (lu : Mat α n n) (pivots : Pivots n) : Mat α n n :=
  Fin.foldl n (fun x j => lu.backward j (lu.forward pivots j x)) (constant n n 0)

end Mat
end RowMajor

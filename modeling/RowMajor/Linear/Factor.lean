import RowMajor.Matrix.Window
import RowMajor.Matrix.Elimination
import RowMajor.Matrix.Cholesky
import RowMajor.Matrix.Orthogonal

/-! Factorizations of square tensors of rank two, and what follows from them.
Shapes are checked before anything is written. -/
namespace RowMajor.Linear
variable {α : Type} [Scalar α] {m : Type → Type} [Monad m]

/-- Replaces a square matrix by its combined triangular factors. -/
def factorInPlace [MonadStateOf Log m] : InPlace (Tensor α) m AnyPivots := do
  let target ← get
  let ⟨n, h⟩ ← requireSquare target.shape
  let done := Elimination.run (target.matrix h)
  done.exchanges.forM fun (i, k) => emit (.rowExchange i k)
  set (target.withMatrix h done.matrix)
  return ⟨n, done.pivots⟩

/-- Separates combined factors into the unit lower and the upper one. -/
def splitInto (lu : Tensor α) : InPlace (Tensor α × Tensor α) m Unit := do
  let (l, u) ← get
  let ⟨n, h⟩ ← requireSquare lu.shape
  let ⟨hl⟩ ← requireShape l.shape [n, n]
  let ⟨hu⟩ ← requireShape u.shape [n, n]
  let matrix := lu.matrix h
  set (l.withMatrix hl ((l.matrix hl).writeAll matrix.lowerEntry),
    u.withMatrix hu ((u.matrix hu).writeAll matrix.upperEntry))

def permutationInto {n : Nat} (pivots : Pivots n) : InPlace (Tensor α) m Unit := do
  let target ← get
  let ⟨h⟩ ← requireShape target.shape [n, n]
  set (target.withMatrix h (.permutation pivots))

/-- Combined factors fit pivots of their own dimension only. -/
def requireFactored (shape : List Nat) (dimension : Nat) :
    Except Error (PLift (shape = [dimension, dimension])) := do
  let ⟨n, h⟩ ← requireSquare shape
  if same : dimension = n then return ⟨by rw [h, same]⟩
  else throw (.shapeMismatch [dimension] [n])

def determinant {n : Nat} (lu : Tensor α) (pivots : Pivots n) : Except Error α := do
  let ⟨h⟩ ← requireFactored lu.shape n
  return (lu.matrix h).determinant pivots

def inverseInto {n : Nat} (lu : Tensor α) (pivots : Pivots n) :
    InPlace (Tensor α) m Unit := do
  let target ← get
  let ⟨h⟩ ← requireFactored lu.shape n
  let ⟨ht⟩ ← requireShape target.shape [n, n]
  set (target.withMatrix ht ((lu.matrix h).inverse pivots))

def choleskyInto (a : Tensor α) : InPlace (Tensor α) m Unit := do
  let target ← get
  let ⟨n, h⟩ ← requireSquare a.shape
  let ⟨ht⟩ ← requireShape target.shape [n, n]
  set (target.withMatrix ht (a.matrix h).cholesky)

def orthogonalInto (a : Tensor α) : InPlace (Tensor α × Tensor α) m Unit := do
  let (q, r) ← get
  let ⟨n, h⟩ ← requireSquare a.shape
  let ⟨hq⟩ ← requireShape q.shape [n, n]
  let ⟨hr⟩ ← requireShape r.shape [n, n]
  let done := Orthogonal.runOver (q.matrix hq) (a.matrix h)
  set (q.withMatrix hq done.q, r.withMatrix hr done.r)

end RowMajor.Linear

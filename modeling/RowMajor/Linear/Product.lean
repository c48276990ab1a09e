import RowMajor.Matrix.Window

/-! Products and transposes of tensors of rank two. Shapes are checked before
anything is written. Targets may lie anywhere in their stores. -/
namespace RowMajor.Linear
variable {α : Type} [Scalar α] {m : Type → Type} [Monad m]

/-- Matrices can be multiplied if the columns of one are as many as the rows of the other. -/
def requireFactors (a b : List Nat) :
    Except Error { d : Nat × Nat × Nat // a = [d.1, d.2.1] ∧ b = [d.2.1, d.2.2] } := do
  let (rows, inner) ← matrixDims a
  let (_, cols) ← matrixDims b
  if h : a = [rows, inner] ∧ b = [inner, cols] then return ⟨(rows, inner, cols), h⟩
  else throw (.shapeMismatch a b)

/-- `a * b`. -/
def multiplyInto (a b : Tensor α) : InPlace (Tensor α) m Unit := do
  let out ← get
  let ⟨(rows, _, cols), ha, hb⟩ ← requireFactors a.shape b.shape
  let ⟨ho⟩ ← requireShape out.shape [rows, cols]
  set (out.withMatrix ho ((out.matrix ho).writeAll ((a.matrix ha).productEntry (b.matrix hb))))

def transposeInto (a : Tensor α) : InPlace (Tensor α) m Unit := do
  let out ← get
  let ⟨(rows, cols), h⟩ ← requireMatrix a.shape
  let ⟨ho⟩ ← requireShape out.shape [cols, rows]
  let matrix := a.matrix h
  set (out.withMatrix ho ((out.matrix ho).writeAll fun j i => matrix.entry i j))

/-- Room for the result is sought first, then the factors are checked. -/
def multiply (a b : Tensor α) : Attempt (Except Fault) (Tensor α) := do
  let (rows, _) ← matrixDims a.shape
  let (_, cols) ← matrixDims b.shape
  discard (Layout.forStore [rows, cols])
  let ⟨_, ha, hb⟩ ← requireFactors a.shape b.shape
  Tensor.ofMatrix ((a.matrix ha).product (b.matrix hb))

/-- Room for the result is sought first, then the matrix is checked. -/
def transpose (a : Tensor α) : Attempt (Except Fault) (Tensor α) := do
  let (rows, cols) ← matrixDims a.shape
  discard (Layout.forStore [cols, rows])
  let ⟨_, h⟩ ← requireMatrix a.shape
  Tensor.ofMatrix (a.matrix h).transpose

end RowMajor.Linear

import RowMajor.Tensor
import RowMajor.Matrix.Basic

/-! Tensors of rank two as matrices, and the shapes that the matrix operations ask
for. A check that succeeds returns the evidence that it has found. -/
namespace RowMajor

/-- Rows and columns of the matrices that the last two dimensions hold. -/
def matrixDims (shape : List Nat) : Except Error (Nat × Nat) :=
  match shape.reverse with
  | cols :: rows :: _ => .ok (rows, cols)
  | _ => .error (.rankMismatch shape.length 2)

/-- The size of the trailing matrices, if they are square. -/
def squareDim (shape : List Nat) : Except Error Nat := do
  let (rows, cols) ← matrixDims shape
  if rows = cols then return rows else throw (.nonSquare rows cols)

def requireMatrix (shape : List Nat) : Except Error { d : Nat × Nat // shape = [d.1, d.2] } :=
  match shape with
  | [rows, cols] => .ok ⟨(rows, cols), rfl⟩
  | _ => .error (.rankMismatch shape.length 2)

def requireSquare (shape : List Nat) : Except Error { n : Nat // shape = [n, n] } := do
  let ⟨(rows, cols), h⟩ ← requireMatrix shape
  if same : rows = cols then return ⟨rows, by rw [h, same]⟩
  else throw (.nonSquare rows cols)

def requireShape (actual expected : List Nat) : Except Error (PLift (actual = expected)) :=
  if h : actual = expected then .ok ⟨h⟩ else .error (.shapeMismatch actual expected)

namespace Tensor
variable {α : Type} {n m : Nat}

/-- The elements as a matrix. -/
def matrix (t : Tensor α) (h : t.shape = [n, m]) : Mat α n m :=
  ⟨t.cells.cast (Layout.size_of_shape_pair h)⟩

/-- A tensor of the entries of a matrix. -/
def ofMatrix (a : Mat α n m) : Except Fault (Tensor α) :=
  match h : Layout.ofShape [n, m] with
  | .error fault => .error fault
  | .ok layout =>
    have same := Layout.size_of_shape_pair (Layout.shape_of_ofShape h)
    .ok (compact layout (a.cells.cast same.symm))

/-- Overwrites the elements with the entries of a matrix. -/
def withMatrix (t : Tensor α) (h : t.shape = [n, m]) (a : Mat α n m) : Tensor α :=
  t.overwrite (a.cells.cast (Layout.size_of_shape_pair h).symm)

def vector (t : Tensor α) (h : t.shape = [n]) : Vector α n :=
  t.cells.cast (Layout.size_of_shape_single h)

def withVector (t : Tensor α) (h : t.shape = [n]) (v : Vector α n) : Tensor α :=
  t.overwrite (v.cast (Layout.size_of_shape_single h).symm)

theorem matrix_withMatrix (t : Tensor α) (h : t.shape = [n, m]) (a : Mat α n m) :
    (t.withMatrix h a).matrix h = a :=
  congrArg (fun cells => Mat.mk (cells.cast (Layout.size_of_shape_pair h)))
    (cells_overwrite t (a.cells.cast (Layout.size_of_shape_pair h).symm))

theorem vector_withVector (t : Tensor α) (h : t.shape = [n]) (v : Vector α n) :
    (t.withVector h v).vector h = v :=
  congrArg (fun cells => cells.cast (Layout.size_of_shape_single h))
    (cells_overwrite t (v.cast (Layout.size_of_shape_single h).symm))

end Tensor
end RowMajor

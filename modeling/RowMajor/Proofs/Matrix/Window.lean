import Mathlib
import RowMajor.Matrix.Window

/-! Tensors whose elements are a given matrix or vector, and the shapes for which the
checks of the matrix operations succeed. -/
namespace RowMajor
variable {α : Type} {n m : Nat}

namespace Tensor

/-- The elements of a tensor are the entries of a matrix. -/
def Holds (t : Tensor α) (a : Mat α n m) : Prop :=
  ∃ h : t.shape = [n, m], t.matrix h = a

def HoldsVector (t : Tensor α) (x : Vector α n) : Prop :=
  ∃ h : t.shape = [n], t.vector h = x

theorem holds_withMatrix (t : Tensor α) (h : t.shape = [n, m]) (a : Mat α n m) :
    (t.withMatrix h a).Holds a :=
  ⟨h, t.matrix_withMatrix h a⟩

theorem holdsVector_withVector (t : Tensor α) (h : t.shape = [n]) (x : Vector α n) :
    (t.withVector h x).HoldsVector x :=
  ⟨h, t.vector_withVector h x⟩

theorem HoldsVector.unique {t : Tensor α} {x y : Vector α n} (hx : t.HoldsVector x)
    (hy : t.HoldsVector y) : x = y := by
  obtain ⟨_, rfl⟩ := hx
  obtain ⟨_, rfl⟩ := hy
  rfl

end Tensor

theorem requireMatrix_eq {shape : List Nat} (h : shape = [n, m]) :
    requireMatrix shape = .ok ⟨(n, m), h⟩ := by
  subst h
  rfl

theorem requireSquare_eq {shape : List Nat} (h : shape = [n, n]) :
    requireSquare shape = .ok ⟨n, h⟩ := by
  simp only [requireSquare, requireMatrix_eq h, bind, Except.bind, dite_true, pure, Except.pure]

theorem requireShape_eq {actual expected : List Nat} (h : actual = expected) :
    requireShape actual expected = .ok ⟨h⟩ :=
  dif_pos h

theorem matrixDims_eq (stack : List Nat) (n m : Nat) :
    matrixDims (stack ++ [n, m]) = .ok (n, m) := by
  simp [matrixDims]

theorem squareDim_eq (stack : List Nat) (n : Nat) : squareDim (stack ++ [n, n]) = .ok n := by
  simp [squareDim, matrixDims_eq, bind, Except.bind, pure, Except.pure]

theorem squareDim_refuses (stack : List Nat) {n m : Nat} (h : n ≠ m) :
    squareDim (stack ++ [n, m]) = .error (.nonSquare n m) := by
  simp [squareDim, matrixDims_eq, bind, Except.bind, h]
  rfl

end RowMajor

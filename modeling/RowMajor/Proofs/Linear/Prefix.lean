import Mathlib
import RowMajor.Proofs.Cholesky.Prefix
import RowMajor.Proofs.Linear.Budget
import RowMajor.Proofs.Linear.Invalid
import RowMajor.Proofs.Orthogonal.Prefix

/-! Factors of two tensors that agree in part. The rows of the triangular factor and the columns of
the orthogonal ones are the same as far as those of the matrix are, and neither the rest of the
matrix nor the target has any influence. -/
namespace RowMajor.Linear
open InPlace (Returns)
variable {α : Type} {n : Nat}

/-- The call succeeds on every target of this size, and these are the entries that it leaves. -/
def Writes (operation : InPlace (Tensor α) Run Unit) (a : Mat α n n) : Prop :=
  ∀ x : Tensor α, x.shape = [n, n] → ∃ x', Returns operation x () x' ∧ x'.Holds a

def WritesBoth (operation : InPlace (Tensor α × Tensor α) Run Unit) (a b : Mat α n n) : Prop :=
  ∀ x y : Tensor α, x.shape = [n, n] → y.shape = [n, n] →
    ∃ x' y', Returns operation (x, y) () (x', y') ∧ x'.Holds a ∧ y'.Holds b

variable [Scalar α]

theorem choleskyInto_writes {t : Tensor α} {a : Mat α n n} (h : t.Holds a) :
    Writes (choleskyInto t) a.cholesky :=
  fun _ shape => choleskyInto_returns h shape

theorem orthogonalInto_writes {t : Tensor α} {a : Mat α n n} (h : t.Holds a) :
    WritesBoth (orthogonalInto t) (Orthogonal.run a).q (Orthogonal.run a).r :=
  fun _ _ first second => orthogonalInto_returns h first second

/-- The triangular factor reads each row up to the diagonal, the orthogonal ones read each column;
in both cases nothing that comes later is read. A corner has the corner of the factor. -/
theorem factors_of_prefix {s t : Tensor α} {a b : Mat α n n} (hs : s.Holds a) (ht : t.Holds b) :
    (∃ l r : Mat α n n, Writes (choleskyInto s) l ∧ Writes (choleskyInto t) r ∧
      (∀ count, Mat.SameLower count a b → Mat.SameRows count l r) ∧
      (Mat.SameLower n a b → l = r) ∧
      ∀ (m : Nat) (le : m ≤ n) (c : Tensor α), c.Holds (a.corner le) →
        Writes (choleskyInto c) (l.corner le)) ∧
    ∃ q r q' r' : Mat α n n, WritesBoth (orthogonalInto s) q r ∧
      WritesBoth (orthogonalInto t) q' r' ∧
      ∀ count, Mat.SameColumns count a b →
        Mat.SameColumns count q q' ∧ Mat.SameColumns count r r' := by
  constructor
  · refine ⟨_, _, choleskyInto_writes hs, choleskyInto_writes ht,
      fun _ same => same.rows_cholesky, fun same => same.cholesky_eq, fun m le c hc => ?_⟩
    rw [← Mat.cholesky_corner]
    exact choleskyInto_writes hc
  · exact ⟨_, _, _, _, orthogonalInto_writes hs, orthogonalInto_writes ht,
      fun _ same => Orthogonal.run_sameColumns same⟩

/-- It differs from `semidefiniteCorner` in the last column, and there above the diagonal only. -/
def skewCorner : Tensor Float :=
  ⟨lateExchange.layout, #[4, 2, -7, 2, 1, 0, 2, 3, 5], 0, by decide⟩

/-- The first two rows and columns of both. -/
def smallCorner : Tensor Float :=
  ⟨squareLayout, #[4, 2, 2, 1], 0, by decide⟩

theorem smallCorner_holds : smallCorner.Holds
    ((semidefiniteCorner.matrix (rfl : _ = [3, 3])).corner (m := 2) (by decide)) := by
  have entries (i j : Fin 2) : (smallCorner.matrix (rfl : _ = [2, 2])).entry i j =
      ((semidefiniteCorner.matrix (rfl : _ = [3, 3])).corner (m := 2) (by decide)).entry i j := by
    revert i j
    decide +kernel
  exact ⟨rfl, Mat.ext_entry entries⟩

theorem sameLower_skewCorner : Mat.SameLower 3 (semidefiniteCorner.matrix (rfl : _ = [3, 3]))
    (skewCorner.matrix (rfl : _ = [3, 3])) := by
  intro i j p q row col left _
  obtain rfl := Fin.ext row
  obtain rfl := Fin.ext col
  revert i j
  decide +kernel

theorem sameColumns_skewCorner : Mat.SameColumns 2 (semidefiniteCorner.matrix (rfl : _ = [3, 3]))
    (skewCorner.matrix (rfl : _ = [3, 3])) := by
  intro k before
  apply congrArg Vector.ofFn
  funext i
  revert i k
  decide +kernel

theorem factors_of_prefix_skewCorner :
    (∃ l : Mat Float 3 3, Writes (choleskyInto semidefiniteCorner) l ∧
      Writes (choleskyInto skewCorner) l ∧
      Writes (choleskyInto smallCorner) (l.corner (m := 2) (by decide))) ∧
    ∃ q r q' r' : Mat Float 3 3, WritesBoth (orthogonalInto semidefiniteCorner) q r ∧
      WritesBoth (orthogonalInto skewCorner) q' r' ∧
      Mat.SameColumns 2 q q' ∧ Mat.SameColumns 2 r r' := by
  obtain ⟨⟨l, l', first, second, _, equal, corners⟩, q, r, q', r', both, both', same⟩ :=
    factors_of_prefix (s := semidefiniteCorner) (t := skewCorner) ⟨rfl, rfl⟩ ⟨rfl, rfl⟩
  obtain rfl := equal sameLower_skewCorner
  exact ⟨⟨l, first, second, corners 2 (by decide) smallCorner smallCorner_holds⟩,
    q, r, q', r', both, both', same 2 sameColumns_skewCorner⟩

end RowMajor.Linear

import Mathlib
import RowMajor.Proofs.Layout.Accepted
import RowMajor.Proofs.Linear.Effect
import RowMajor.Proofs.Matrix.Transposed
import RowMajor.Proofs.Scalar.Trace
import RowMajor.Proofs.Stack.Pieces

/-! Transposes of products. If products commute, the transpose of a product is the product of
the transposes in reverse, element by element and not only up to rounding. The two sides ask
memory for the same room and fault together. -/
namespace RowMajor
open InPlace (Returns)
variable {α : Type} {l m n : Nat}

namespace Layout

theorem forStore_swap_eq_error {fault : Fault} (h : forStore [n, m] = .error fault) :
    forStore [m, n] = .error fault := by
  have accepted : Accepted [m, n] ↔ Accepted [n, m] := by
    rw [accepted_pair_iff, accepted_pair_iff, padded_pair, padded_pair, Nat.mul_comm]
  have size : product [m, n] = product [n, m] := by simp [product, Nat.mul_comm]
  rw [forStore_eq_error_iff] at h ⊢
  rwa [accepted, size]

end Layout

namespace Tensor

/-- A tensor of its own with the entries of a matrix, if memory has room for it. -/
def fresh (x : Mat α n m) : Except Fault (Tensor α) := do
  discard (Layout.forStore [n, m])
  ofMatrix x

theorem fresh_of_layout {layout : Layout} (h : layout.shape = [n, m])
    (room : layout.size < Word.room) (x : Mat α n m) :
    fresh x = .ok (compact layout (x.cells.cast (Layout.size_of_shape_pair h).symm)) := by
  have made : Layout.ofShape [n, m] = .ok layout := h ▸ Layout.ofShape_self layout
  have kept : Layout.forStore [n, m] = .ok layout := h ▸ Layout.forStore_self room
  have owned : ofMatrix x =
      .ok (compact layout (x.cells.cast (Layout.size_of_shape_pair h).symm)) := by
    unfold ofMatrix
    split
    · rename_i failed
      rw [made] at failed
      cases failed
    · rename_i found same
      obtain rfl : found = layout := Except.ok.inj (same.symm.trans made)
      rfl
  rw [fresh, kept]
  exact owned

theorem fresh_matrix {a : Tensor α} (h : a.shape = [n, m]) (room : a.size < Word.room) :
    fresh (a.matrix h) = .ok a.copy :=
  fresh_of_layout h room _

theorem exists_fresh (rows : n < Word.bound) (cols : m < Word.bound) (room : n * m < Word.room)
    (x : Mat α n m) : ∃ t, fresh x = .ok t := by
  obtain ⟨layout, made⟩ := Layout.accepted_pair rows cols (Nat.lt_trans room (by decide))
  have shape := Layout.shape_of_ofShape made
  exact ⟨_, fresh_of_layout shape (Layout.size_of_shape_pair shape ▸ room) x⟩

theorem holds_of_fresh {x : Mat α n m} {t : Tensor α} (h : fresh x = .ok t) : t.Holds x := by
  cases made : Layout.forStore [n, m] with
  | error fault =>
      rw [fresh, made] at h
      cases h
  | ok layout =>
      obtain ⟨shape, room⟩ := Layout.forStore_eq_ok made
      obtain rfl := Except.ok.inj ((fresh_of_layout shape room x).symm.trans h)
      refine ⟨shape, congrArg Mat.mk (Vector.toList_inj.mp ?_)⟩
      rw [Vector.toList_cast, toList_cells_compact, Vector.toList_cast]

theorem fresh_eq_error_iff {x : Mat α n m} {fault : Fault} :
    fresh x = .error fault ↔ Layout.forStore [n, m] = .error fault := by
  cases made : Layout.forStore [n, m] with
  | error found =>
      have same : fresh x = .error found := by
        rw [fresh, made]
        rfl
      rw [same, Except.error.injEq, Except.error.injEq]
  | ok layout =>
      obtain ⟨shape, room⟩ := Layout.forStore_eq_ok made
      rw [fresh_of_layout shape room]
      exact iff_of_false (by simp) (by simp)

/-- Whether memory has room does not depend on which side is counted first. -/
theorem fresh_swap_eq_error {x : Mat α n m} {fault : Fault} (h : fresh x = .error fault)
    (y : Mat α m n) : fresh y = .error fault :=
  fresh_eq_error_iff.mpr (Layout.forStore_swap_eq_error (fresh_eq_error_iff.mp h))

end Tensor

namespace Linear
open Tensor (fresh)

theorem transpose_eq {a : Tensor α} (h : a.shape = [n, m]) :
    transpose a = ExceptT.lift (fresh (a.matrix h).transpose) := by
  have dims : matrixDims a.shape = .ok (n, m) := h ▸ matrixDims_eq [] n m
  simp only [transpose, dims, requireMatrix_eq h, fresh]
  change (do
    discard (liftM (Layout.forStore [m, n]))
    liftM (Tensor.ofMatrix (a.matrix h).transpose) : Attempt (Except Fault) (Tensor α)) = _
  cases Layout.forStore [m, n] <;> rfl

theorem sides_lt {a : Tensor α} (h : a.shape = [n, m]) : n < Word.bound ∧ m < Word.bound :=
  Layout.Accepted.sides_lt (h ▸ ⟨a.layout, Layout.ofShape_self a.layout⟩)

theorem exists_transpose {a : Tensor α} (h : a.shape = [n, m]) (room : a.size < Word.room) :
    ∃ t, fresh (a.matrix h).transpose = .ok t := by
  obtain ⟨rows, cols⟩ := sides_lt h
  refine Tensor.exists_fresh cols rows ?_ _
  rwa [Nat.mul_comm, ← Layout.size_of_shape_pair h]

theorem transpose_transpose {a : Tensor α} (h : a.shape = [n, m]) :
    transpose a >>= transpose = ExceptT.lift (fresh (a.matrix h)) := by
  rw [transpose_eq h]
  cases made : fresh (a.matrix h).transpose with
  | error fault =>
      rw [Tensor.fresh_swap_eq_error made]
      rfl
  | ok t =>
      obtain ⟨shape, holds⟩ := Tensor.holds_of_fresh made
      have again := transpose_eq shape
      rw [holds, Mat.transpose_transpose] at again
      exact again

variable [Scalar α] {a b : Tensor α}

theorem multiply_eq (ha : a.shape = [l, n]) (hb : b.shape = [n, m]) :
    multiply a b = ExceptT.lift (fresh ((a.matrix ha).product (b.matrix hb))) := by
  have rows : matrixDims a.shape = .ok (l, n) := ha ▸ matrixDims_eq [] l n
  have cols : matrixDims b.shape = .ok (n, m) := hb ▸ matrixDims_eq [] n m
  simp only [multiply, rows, cols, requireFactors_eq ha hb, fresh]
  change (do
    discard (liftM (Layout.forStore [l, m]))
    liftM (Tensor.ofMatrix ((a.matrix ha).product (b.matrix hb))) :
      Attempt (Except Fault) (Tensor α)) = _
  cases Layout.forStore [l, m] <;> rfl

/-- The result does not depend on whether the product or its factors are transposed. -/
theorem transpose_multiply (comm : ∀ x y : α, x * y = y * x) {a' b' : Tensor α}
    (ha : a.shape = [l, n]) (hb : b.shape = [n, m])
    (left : fresh (a.matrix ha).transpose = .ok a')
    (right : fresh (b.matrix hb).transpose = .ok b') :
    multiply a b >>= transpose = multiply b' a' := by
  obtain ⟨shapeA, holdsA⟩ := Tensor.holds_of_fresh left
  obtain ⟨shapeB, holdsB⟩ := Tensor.holds_of_fresh right
  rw [multiply_eq ha hb, multiply_eq shapeB shapeA, holdsA, holdsB, ← Mat.transpose_product comm]
  cases made : fresh ((a.matrix ha).product (b.matrix hb)) with
  | error fault =>
      rw [Tensor.fresh_swap_eq_error made]
      rfl
  | ok p =>
      obtain ⟨shape, holds⟩ := Tensor.holds_of_fresh made
      have last := transpose_eq shape
      rw [holds] at last
      exact last

/-- What is written does not depend on it either, wherever the targets lie. -/
theorem transposeInto_multiplyInto (comm : ∀ x y : α, x * y = y * x) (ha : a.shape = [l, n])
    (hb : b.shape = [n, m]) {p q r s t : Tensor α} (hp : p.shape = [l, m]) (hq : q.shape = [m, l])
    (hr : r.shape = [n, l]) (hs : s.shape = [m, n]) (ht : t.shape = [m, l]) :
    ∃ p' q' r' s' t', Returns (multiplyInto a b) p () p' ∧ Returns (transposeInto p') q () q' ∧
      Returns (transposeInto a) r () r' ∧ Returns (transposeInto b) s () s' ∧
      Returns (multiplyInto s' r') t () t' ∧ q'.SameContents t' := by
  let x := a.matrix ha
  let y := b.matrix hb
  refine ⟨p.withMatrix hp (x.product y), q.withMatrix hq (x.product y).transpose,
    r.withMatrix hr x.transpose, s.withMatrix hs y.transpose,
    t.withMatrix ht (y.transpose.product x.transpose),
    fun log => ⟨log, multiplyInto_ends ha hb hp log⟩, fun log => ⟨log, ?_⟩,
    fun log => ⟨log, transposeInto_ends ha hr log⟩,
    fun log => ⟨log, transposeInto_ends hb hs log⟩, fun log => ⟨log, ?_⟩, ?_⟩
  · have ends := transposeInto_ends (a := p.withMatrix hp (x.product y)) hp hq log
    rwa [Tensor.matrix_withMatrix] at ends
  · have ends := multiplyInto_ends (a := s.withMatrix hs y.transpose)
      (b := r.withMatrix hr x.transpose) hs hr ht log
    rwa [Tensor.matrix_withMatrix, Tensor.matrix_withMatrix] at ends
  · rw [Mat.transpose_product comm]
    exact q.sameContents_withMatrix t hq ht _

omit [Scalar α] in
theorem transposeInto_transposeInto (ha : a.shape = [n, m]) {r c : Tensor α}
    (hr : r.shape = [m, n]) (hc : c.shape = [n, m]) :
    ∃ r' c', Returns (transposeInto a) r () r' ∧ Returns (transposeInto r') c () c' ∧
      c'.SameContents a := by
  refine ⟨r.withMatrix hr (a.matrix ha).transpose, c.withMatrix hc (a.matrix ha),
    fun log => ⟨log, transposeInto_ends ha hr log⟩, fun log => ⟨log, ?_⟩, ?_⟩
  · have ends := transposeInto_ends (a := r.withMatrix hr (a.matrix ha).transpose) hr hc log
    rwa [Tensor.matrix_withMatrix, Mat.transpose_transpose] at ends
  · exact (c.holds_withMatrix hc _).sameContents ⟨ha, rfl⟩

/-- How the transposes of two matrices and of their product go together, and that the products
of a matrix with itself are symmetric. -/
structure Reverses (a b : Tensor α) (l n m : Nat) : Prop where
  twice : a.size < Word.room → ∃ a', transpose a = pure a' ∧ transpose a' = pure a.copy
  product : a.size < Word.room → b.size < Word.room →
    ∃ a' b', transpose a = pure a' ∧ transpose b = pure b' ∧
      multiply a b >>= transpose = multiply b' a' ∧
      (l * m < Word.room → ∃ c, multiply b' a' = pure c)
  twiceInto : ∀ r c : Tensor α, r.shape = [n, l] → c.shape = [l, n] →
    ∃ r' c', Returns (transposeInto a) r () r' ∧ Returns (transposeInto r') c () c' ∧
      c'.SameContents a
  productInto : ∀ p q r s t : Tensor α, p.shape = [l, m] → q.shape = [m, l] → r.shape = [n, l] →
    s.shape = [m, n] → t.shape = [m, l] →
    ∃ p' q' r' s' t', Returns (multiplyInto a b) p () p' ∧ Returns (transposeInto p') q () q' ∧
      Returns (transposeInto a) r () r' ∧ Returns (transposeInto b) s () s' ∧
      Returns (multiplyInto s' r') t () t' ∧ q'.SameContents t'
  columnGram : ∀ (h : a.shape = [l, n]) (i j : Fin n),
    (a.matrix h).columnGram.entry i j = (a.matrix h).columnGram.entry j i
  rowGram : ∀ (h : a.shape = [l, n]) (i j : Fin l),
    (a.matrix h).rowGram.entry i j = (a.matrix h).rowGram.entry j i

theorem products_reverse (comm : ∀ x y : α, x * y = y * x) (ha : a.shape = [l, n])
    (hb : b.shape = [n, m]) : Reverses a b l n m where
  twice room := by
    obtain ⟨a', made⟩ := exists_transpose ha room
    have again := transpose_transpose ha
    rw [Tensor.fresh_matrix ha room, transpose_eq ha, made] at again
    exact ⟨a', (transpose_eq ha).trans (congrArg ExceptT.lift made), again⟩
  product roomA roomB := by
    obtain ⟨a', left⟩ := exists_transpose ha roomA
    obtain ⟨b', right⟩ := exists_transpose hb roomB
    refine ⟨a', b', (transpose_eq ha).trans (congrArg ExceptT.lift left),
      (transpose_eq hb).trans (congrArg ExceptT.lift right),
      transpose_multiply comm ha hb left right, fun room => ?_⟩
    obtain ⟨shapeA, _⟩ := Tensor.holds_of_fresh left
    obtain ⟨shapeB, _⟩ := Tensor.holds_of_fresh right
    obtain ⟨c, made⟩ := Tensor.exists_fresh (sides_lt hb).2 (sides_lt ha).1
      (Nat.mul_comm l m ▸ room) ((b'.matrix shapeB).product (a'.matrix shapeA))
    exact ⟨c, (multiply_eq shapeB shapeA).trans (congrArg ExceptT.lift made)⟩
  twiceInto _ _ hr hc := transposeInto_transposeInto ha hr hc
  productInto _ _ _ _ _ hp hq hr hs ht := transposeInto_multiplyInto comm ha hb hp hq hr hs ht
  columnGram h := (a.matrix h).entry_columnGram_comm comm
  rowGram h := (a.matrix h).entry_rowGram_comm comm

/-- Two rows in the middle of a longer store. -/
def twoRows : Tensor Float :=
  ⟨⟨[2, 3], [3, 1], 6, rfl, rfl⟩, #[7, 1, 2, 3, 4, 5, 6, 8], 1, by decide⟩

def oneColumn : Tensor Float :=
  ⟨⟨[3, 1], [1, 1], 3, rfl, rfl⟩, #[0.5, 0.25, -1], 0, by decide⟩

theorem products_reverse_twoRows :
    (∀ x y : Float, x * y = y * x) ∧ Reverses twoRows oneColumn 2 3 1 ∧
    ∃ a', transpose twoRows = pure a' ∧ transpose a' = pure twoRows.copy :=
  have reverses := products_reverse (a := twoRows) (b := oneColumn) Binary64.mul_comm rfl rfl
  ⟨Binary64.mul_comm, reverses, reverses.twice (by decide)⟩

end Linear
end RowMajor

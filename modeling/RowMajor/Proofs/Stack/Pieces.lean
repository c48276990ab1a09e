import Mathlib
import RowMajor.Stack
import RowMajor.Proofs.Matrix.Window
import RowMajor.Proofs.Tensor.Tiling

/-! Tensors as lists of matrices. The elements of a stack are those of its matrices, one
matrix after the other, and its items and chunks go along the list. -/
namespace RowMajor
open Layout (InBounds rowOffset product)
variable {α : Type} {n m : Nat}

/-! Lists along the same data -/

theorem forall₂_zip_along {β γ μ : Type} {related : β → μ → Prop} {related' : γ → μ → Prop}
    {xs : List β} {ys : List γ} {data : List μ} (h : List.Forall₂ related xs data)
    (h' : List.Forall₂ related' ys data) :
    List.Forall₂ (fun pair d => related pair.1 d ∧ related' pair.2 d) (xs.zip ys) data := by
  induction h generalizing ys with
  | nil => cases h'; exact .nil
  | cons here _ ih =>
      cases h' with
      | cons here' rest => exact .cons ⟨here, here'⟩ (ih rest)

/-- What is known as soon as there are any data holds along all of them. -/
theorem forall₂_and_of_ne_nil {β μ : Type} {related : β → μ → Prop} {known : Prop} {xs : List β}
    {data : List μ} (h : List.Forall₂ related xs data) (holds : data ≠ [] → known) :
    List.Forall₂ (fun x d => related x d ∧ known) xs data := by
  cases h with
  | nil => exact .nil
  | cons here rest =>
      have fact := holds (List.cons_ne_nil _ _)
      exact .cons ⟨here, fact⟩ (rest.imp fun _ _ r => ⟨r, fact⟩)

theorem forall₂_map_both {β β' μ μ' : Type} {related : β → μ → Prop} {related' : β' → μ' → Prop}
    {f : β → β'} {g : μ → μ'} {xs : List β} {data : List μ} (h : List.Forall₂ related xs data)
    (follows : ∀ x d, related x d → related' (f x) (g d)) :
    List.Forall₂ related' (xs.map f) (data.map g) :=
  List.forall₂_map_left_iff.mpr (List.forall₂_map_right_iff.mpr (h.imp follows))

theorem forall₂_map_self {β μ : Type} (f : μ → β) (data : List μ) :
    List.Forall₂ (fun x d => x = f d) (data.map f) data :=
  List.forall₂_map_left_iff.mpr (List.forall₂_same.mpr fun _ _ => rfl)

/-- The entry number `k` can only be `x`. A list that ends before has no such entry. -/
def AgreesAt {β : Type} (xs : List β) (k : Nat) (x : β) : Prop :=
  ∀ other, xs[k]? = some other → other = x

theorem AgreesAt.map {β γ : Type} {xs : List β} {k : Nat} {x : β} (h : AgreesAt xs k x)
    (f : β → γ) : AgreesAt (xs.map f) k (f x) := by
  intro other found
  rw [List.getElem?_map] at found
  obtain ⟨y, here, rfl⟩ := Option.map_eq_some_iff.mp found
  rw [h y here]

namespace Tensor

/-- The elements are these pieces, one after the other. -/
structure IsMadeOf (t : Tensor α) (stack last : List Nat) (pieces : List (List α)) : Prop where
  shape_eq : t.shape = stack ++ last
  count_eq : pieces.length = pieceCount stack last
  uniform : ∀ piece ∈ pieces, piece.length = product last
  cells_eq : t.cells.toList = pieces.flatten

/-- A tensor with the elements of one piece. -/
def IsPiece (part : Tensor α) (last : List Nat) (piece : List α) : Prop :=
  part.shape = last ∧ part.cells.toList = piece

variable {t : Tensor α} {stack last : List Nat} {pieces : List (List α)}

theorem IsMadeOf.slice_eq (h : t.IsMadeOf stack last pieces) {k : Nat} (hk : k < pieces.length) :
    slice (product last) t.cells.toList k = pieces[k] := by
  rw [h.cells_eq, slice_flatten h.uniform hk]

theorem IsMadeOf.eq_map_slice (h : t.IsMadeOf stack last pieces) :
    pieces = (List.range (pieceCount stack last)).map (slice (product last) t.cells.toList) := by
  apply List.ext_getElem
  · rw [List.length_map, List.length_range, h.count_eq]
  · intro k hk _
    rw [List.getElem_map, List.getElem_range, h.slice_eq hk]

theorem exists_isMadeOf (h : t.shape = stack ++ last) : ∃ pieces, t.IsMadeOf stack last pieces := by
  obtain ⟨split, along, _, _⟩ := sequences_eq h
  refine ⟨((List.finRange split.count).map split.item).map fun item => item.cells.toList,
    h, ?_, ?_, (flatten_items along).symm⟩
  · simp only [List.length_map, List.length_finRange, along.count_eq]
  · intro piece mem
    obtain ⟨item, member, rfl⟩ := List.mem_map.mp mem
    rw [Vector.length_toList, item.size_eq_product, (mem_items along member).1]

/-- Items and chunks have the pieces, in their order. -/
theorem IsMadeOf.sequences (h : t.IsMadeOf stack last pieces) :
    ∃ items chunks, (t.items last.length).run = .ok (.ok items) ∧
      (t.chunks last.length).run = .ok (.ok chunks) ∧
      List.Forall₂ (IsPiece · last ·) items pieces ∧
      List.Forall₂ (IsPiece · last ·) chunks pieces := by
  obtain ⟨split, along, items, chunks⟩ := sequences_eq h.shape_eq
  have cells : pieces = (List.finRange split.count).map fun k => (split.item k).cells.toList := by
    rw [h.eq_map_slice, ← along.count_eq, ← along.size_inner, ← map_toList_items,
      List.map_map]
    rfl
  refine ⟨_, _, items, chunks, ?_, ?_⟩
  · rw [cells, List.forall₂_map_left_iff, List.forall₂_map_right_iff, List.forall₂_same]
    exact fun k _ => ⟨along.inner_eq, rfl⟩
  · rw [cells, List.forall₂_map_left_iff, List.forall₂_map_right_iff, List.forall₂_same]
    exact fun k _ => ⟨along.inner_eq, toList_cells_copy (split.item k)⟩

/-- Chunks that are put back become the pieces. -/
theorem isMadeOf_withChunks {chunks : List (Tensor α)} (h : t.shape = stack ++ last)
    (count : pieces.length = pieceCount stack last)
    (new : List.Forall₂ (IsPiece · last ·) chunks pieces) :
    (t.withChunks chunks).IsMadeOf stack last pieces := by
  obtain ⟨split, along, _, _⟩ := sequences_eq h
  have cells : chunks.map (fun chunk => chunk.cells.toList) = pieces := by
    rw [← List.forall₂_eq_eq_eq, List.forall₂_map_left_iff]
    exact new.imp fun _ _ piece => piece.2
  have shapes : ∀ chunk ∈ chunks, chunk.shape = last := by
    intro chunk mem
    obtain ⟨k, hk, rfl⟩ := List.mem_iff_getElem.mp mem
    exact (new.get hk (new.length_eq ▸ hk)).1
  have same : chunks.length = split.count := by
    rw [new.length_eq, count, along.count_eq]
  obtain ⟨flat, uniform⟩ := toList_cells_withChunks_of_shape along same shapes
  rw [cells] at flat uniform
  exact ⟨h, count, uniform, flat⟩

/-- What has the elements of the piece of `b` is the part of the whole there. A piece without
elements need not be counted. -/
theorem IsMadeOf.isPart (h : t.IsMadeOf stack last pieces) (ht : t.Addressable) {part : Tensor α}
    (hp : part.Addressable) {b : List Nat} (hb : InBounds stack b) {piece : List α}
    (here : part.IsPiece last piece) (same : AgreesAt pieces (rowOffset stack b) piece) :
    t.IsPart b part := by
  refine isPart_of_cells ht hp h.shape_eq hb here.1 ?_
  by_cases none : product last = 0
  · rw [none, List.take_zero]
    apply List.eq_nil_of_length_eq_zero
    rw [Vector.length_toList, part.size_eq_product, here.1, none]
  · have hk : rowOffset stack b < pieces.length := by
      rw [h.count_eq, pieceCount, if_neg none]
      exact Layout.rowOffset_lt hb
    rw [here.2, ← slice, h.slice_eq hk, same _ (List.getElem?_eq_getElem hk)]

/-- A tensor of its own with the elements of the part at `b`. -/
structure IsCopy (t : Tensor α) (b : List Nat) (part : Tensor α) : Prop where
  isPart : t.IsPart b part
  start_eq : part.start = 0
  store_eq : part.store.size = part.size

theorem IsCopy.addressable {b : List Nat} {part : Tensor α} (h : t.IsCopy b part) :
    part.Addressable := by
  rw [Addressable, h.start_eq, Nat.zero_add]
  exact Nat.le_of_lt part.layout.size_lt

theorem IsMadeOf.exists_copy (h : t.IsMadeOf stack last pieces) (ht : t.Addressable) {b : List Nat}
    (hb : InBounds stack b) : ∃ part piece, t.IsCopy b part ∧ part.IsPiece last piece ∧
      AgreesAt pieces (rowOffset stack b) piece := by
  obtain ⟨_, inner, made⟩ := Layout.exists_ofShape_append h.shape_eq
  have shape := Layout.shape_of_ofShape made
  have size : inner.size = product last := by rw [inner.size_eq_product, shape]
  have length : (slice (product last) t.cells.toList (rowOffset stack b)).length = inner.size := by
    rw [size]
    by_cases none : product last = 0
    · rw [slice, none, List.take_zero, List.length_nil]
    · have hk : rowOffset stack b < pieces.length := by
        rw [h.count_eq, pieceCount, if_neg none]
        exact Layout.rowOffset_lt hb
      rw [h.slice_eq hk]
      exact h.uniform _ (List.getElem_mem hk)
  let cells : Vector α inner.size := ⟨(slice (product last) t.cells.toList _).toArray, length⟩
  have piece : (compact inner cells).IsPiece last (slice (product last) t.cells.toList _) :=
    ⟨shape, congrArg Vector.toList (cells_compact inner cells)⟩
  have same : AgreesAt pieces (rowOffset stack b)
      (slice (product last) t.cells.toList (rowOffset stack b)) := by
    intro other found
    obtain ⟨hk, rfl⟩ := List.getElem?_eq_some_iff.mp found
    exact (h.slice_eq hk).symm
  have part := h.isPart ht (addressable_compact inner cells) hb piece same
  exact ⟨_, _, ⟨part, rfl, cells.size_toArray⟩, piece, same⟩

theorem Addressable.withMatrix (h : t.Addressable) (shape : t.shape = [n, m]) (a : Mat α n m) :
    (t.withMatrix shape a).Addressable := h

/-! Stacks of matrices and of vectors -/

theorem holds_iff_isPiece {t : Tensor α} {a : Mat α n m} :
    t.Holds a ↔ t.IsPiece [n, m] a.cells.toList := by
  constructor
  · rintro ⟨h, rfl⟩
    exact ⟨h, rfl⟩
  · rintro ⟨h, cells⟩
    exact ⟨h, congrArg Mat.mk (Vector.toList_inj.mp cells)⟩

theorem holdsVector_iff_isPiece {t : Tensor α} {x : Vector α n} :
    t.HoldsVector x ↔ t.IsPiece [n] x.toList := by
  constructor
  · rintro ⟨h, rfl⟩
    exact ⟨h, rfl⟩
  · rintro ⟨h, cells⟩
    exact ⟨h, Vector.toList_inj.mp cells⟩

/-- The elements are those of the matrices, one for each multi-index of the stack. -/
def IsStack (t : Tensor α) (stack : List Nat) (matrices : List (Mat α n m)) : Prop :=
  t.IsMadeOf stack [n, m] (matrices.map fun a => a.cells.toList)

def IsVectorStack (t : Tensor α) (stack : List Nat) (vectors : List (Vector α n)) : Prop :=
  t.IsMadeOf stack [n] (vectors.map Vector.toList)

theorem exists_isStack (h : t.shape = stack ++ [n, m]) :
    ∃ matrices : List (Mat α n m), t.IsStack stack matrices := by
  obtain ⟨pieces, made⟩ := exists_isMadeOf h
  have size : product [n, m] = n * m := by simp [product]
  refine ⟨pieces.attach.map fun piece => ⟨⟨piece.1.toArray, ?_⟩⟩, ?_⟩
  · exact (made.uniform piece.1 piece.2).trans size
  · have same : (pieces.attach.map fun piece => piece.1) = pieces :=
      List.attach_map_subtype_val pieces
    rw [IsStack, List.map_map]
    exact same.symm ▸ made

theorem IsStack.length_eq {matrices : List (Mat α n m)} (h : t.IsStack stack matrices) :
    matrices.length = pieceCount stack [n, m] :=
  (List.length_map _).symm.trans h.count_eq

theorem IsStack.sequences {matrices : List (Mat α n m)} (h : t.IsStack stack matrices) :
    ∃ items chunks, (t.items 2).run = .ok (.ok items) ∧ (t.chunks 2).run = .ok (.ok chunks) ∧
      List.Forall₂ Holds items matrices ∧ List.Forall₂ Holds chunks matrices := by
  obtain ⟨items, chunks, itemsRun, chunksRun, read, written⟩ := IsMadeOf.sequences h
  rw [List.forall₂_map_right_iff] at read written
  exact ⟨items, chunks, itemsRun, chunksRun, read.imp fun _ _ => holds_iff_isPiece.mpr,
    written.imp fun _ _ => holds_iff_isPiece.mpr⟩

/-- What has been done along some data is put back as a stack of their matrices. -/
theorem isStack_withChunks {β μ : Type} {related : β → μ → Prop} {done : List β} {data : List μ}
    (h : t.shape = stack ++ [n, m]) (count : data.length = pieceCount stack [n, m])
    (all : List.Forall₂ related done data) {chunk : β → Tensor α} {matrix : μ → Mat α n m}
    (holds : ∀ y d, related y d → (chunk y).Holds (matrix d)) :
    (t.withChunks (done.map chunk)).IsStack stack (data.map matrix) := by
  refine isMadeOf_withChunks h (by rwa [List.length_map, List.length_map]) ?_
  rw [List.map_map]
  exact forall₂_map_both all fun y d fits => holds_iff_isPiece.mp (holds y d fits)

theorem isVectorStack_withChunks {β μ : Type} {related : β → μ → Prop} {done : List β}
    {data : List μ} (h : t.shape = stack ++ [n]) (count : data.length = pieceCount stack [n])
    (all : List.Forall₂ related done data) {chunk : β → Tensor α} {vector : μ → Vector α n}
    (holds : ∀ y d, related y d → (chunk y).HoldsVector (vector d)) :
    (t.withChunks (done.map chunk)).IsVectorStack stack (data.map vector) := by
  refine isMadeOf_withChunks h (by rwa [List.length_map, List.length_map]) ?_
  rw [List.map_map]
  exact forall₂_map_both all fun y d fits => holdsVector_iff_isPiece.mp (holds y d fits)

theorem IsStack.isPart {matrices : List (Mat α n m)} (h : t.IsStack stack matrices)
    (ht : t.Addressable) {part : Tensor α} (hp : part.Addressable) {b : List Nat}
    (hb : InBounds stack b) {a : Mat α n m} (here : part.Holds a)
    (same : AgreesAt matrices (rowOffset stack b) a) : t.IsPart b part :=
  IsMadeOf.isPart h ht hp hb (holds_iff_isPiece.mp here) (same.map _)

theorem IsVectorStack.isPart {vectors : List (Vector α n)} (h : t.IsVectorStack stack vectors)
    (ht : t.Addressable) {part : Tensor α} (hp : part.Addressable) {b : List Nat}
    (hb : InBounds stack b) {x : Vector α n} (here : part.HoldsVector x)
    (same : AgreesAt vectors (rowOffset stack b) x) : t.IsPart b part :=
  IsMadeOf.isPart h ht hp hb (holdsVector_iff_isPiece.mp here) (same.map _)

theorem IsStack.exists_copy {matrices : List (Mat α n m)} (h : t.IsStack stack matrices)
    (ht : t.Addressable) {b : List Nat} (hb : InBounds stack b) :
    ∃ (c : Tensor α) (a : Mat α n m), t.IsCopy b c ∧ c.Holds a ∧
      AgreesAt matrices (rowOffset stack b) a := by
  obtain ⟨c, piece, copy, here, same⟩ := IsMadeOf.exists_copy h ht hb
  refine ⟨c, c.matrix here.1, copy, ⟨here.1, rfl⟩, fun other found => ?_⟩
  have cells := same other.cells.toList (by rw [List.getElem?_map, found]; rfl)
  exact congrArg Mat.mk (Vector.toList_inj.mp (cells.trans here.2.symm))

theorem product_square_ne_zero (some : n ≠ 0) : product [n, n] ≠ 0 := by
  simp [product, some]

theorem IsStack.length_eq_product {matrices : List (Mat α n m)} (h : t.IsStack stack matrices)
    (some : product [n, m] ≠ 0) : matrices.length = product stack := by
  rw [h.length_eq, pieceCount, if_neg some]

/-- Where matrices have entries there is one for each multi-index. -/
theorem IsStack.getElem?_eq {matrices : List (Mat α n m)} (h : t.IsStack stack matrices)
    (some : product [n, m] ≠ 0) {b : List Nat} (hb : InBounds stack b) {a : Mat α n m}
    (same : AgreesAt matrices (rowOffset stack b) a) :
    matrices[rowOffset stack b]? = .some a := by
  have hk : rowOffset stack b < matrices.length :=
    h.length_eq_product some ▸ Layout.rowOffset_lt hb
  rw [List.getElem?_eq_getElem hk, same _ (List.getElem?_eq_getElem hk)]

theorem IsStack.exists_index {matrices : List (Mat α n m)} (h : t.IsStack stack matrices) {k : Nat}
    (hk : k < matrices.length) : ∃ b, InBounds stack b ∧ rowOffset stack b = k := by
  have small : k < product stack := by
    have count := h.length_eq
    unfold pieceCount at count
    split at count <;> omega
  exact ⟨_, Layout.decode_inBounds small⟩

/-- An element of the whole is an entry of the matrix that a copy holds. -/
theorem IsCopy.read {b : List Nat} {c : Tensor α} {a : Mat α n m} (h : t.IsCopy b c)
    (here : c.Holds a) (i : Fin n) (j : Fin m) :
    t.read (b ++ [i.val, j.val]) = .ok (a.entry i j) := by
  obtain ⟨shape, rfl⟩ := here
  have inside : InBounds c.shape [i.val, j.val] :=
    shape ▸ List.Forall₂.cons i.isLt (.cons j.isLt .nil)
  obtain ⟨x, whole, part⟩ := h.isPart.read_eq _ inside
  have place : rowOffset c.shape [i.val, j.val] = (Mat.place i j).val := by
    simp [shape, rowOffset, product, Mat.place]
  have found : c.cells.toList[rowOffset c.shape [i.val, j.val]]? =
      some ((c.matrix shape).entry i j) := by
    have small : (Mat.place i j).val < c.layout.size := by
      rw [c.size_eq_product, ← place]
      exact Layout.rowOffset_lt inside
    rw [place, List.getElem?_eq_getElem (by rwa [Vector.length_toList]), Vector.getElem_toList]
    rfl
  rw [whole, ← part, read_eq_ok h.addressable inside found]

/-! Stacks that are to be written -/

/-- Memory has room for a stack of this shape. -/
def CanMake (shape : List Nat) : Prop :=
  ∃ layout, Layout.forStore shape = .ok layout

theorem canMake_of_layout {layout : Layout} (h : layout.size < Word.room) :
    CanMake layout.shape :=
  ⟨layout, Layout.forStore_self h⟩

/-- Where there is room for a stack there is room for one column of one matrix. -/
theorem CanMake.rows_lt (h : CanMake (stack ++ [n, m])) (some : product stack ≠ 0) (pos : m ≠ 0) :
    n < Word.room := by
  obtain ⟨layout, made⟩ := h
  obtain ⟨shape, small⟩ := Layout.forStore_eq_ok made
  refine Nat.lt_of_le_of_lt ?_ small
  rw [layout.size_eq_product, shape, Layout.product_append]
  simp only [product, Nat.mul_one]
  exact Nat.le_trans (Nat.le_mul_of_pos_right n (Nat.pos_of_ne_zero pos))
    (Nat.le_mul_of_pos_left _ (Nat.pos_of_ne_zero some))

theorem exists_filled {shape : List Nat} (h : CanMake shape) (value : α) :
    ∃ t : Tensor α, Tensor.filled shape value = .ok t ∧ t.shape = shape ∧ t.Addressable ∧
      ∀ x ∈ t.cells.toList, x = value := by
  obtain ⟨layout, made⟩ := h
  refine ⟨filledLike layout value, ?_, (Layout.forStore_eq_ok made).1,
    addressable_compact layout _, ?_⟩
  · rw [Tensor.filled, made]
    rfl
  · intro x mem
    rw [toList_cells_filledLike] at mem
    exact List.eq_of_mem_replicate mem

/-- The chunks of a stack to be written go along any data of their number. -/
theorem exists_targets {μ : Type} (h : t.shape = stack ++ last) {data : List μ}
    (count : data.length = pieceCount stack last) :
    ∃ targets, (t.chunks last.length).run = .ok (.ok targets) ∧
      List.Forall₂ (fun target _ => target.shape = last) targets data := by
  obtain ⟨pieces, made⟩ := exists_isMadeOf h
  obtain ⟨_, targets, _, run, _, along⟩ := made.sequences
  refine ⟨targets, run, List.forall₂_iff_get.mpr ⟨?_, fun k hk _ => ?_⟩⟩
  · rw [along.length_eq, made.count_eq, count]
  · exact (along.get hk (along.length_eq ▸ hk)).1

end Tensor
end RowMajor

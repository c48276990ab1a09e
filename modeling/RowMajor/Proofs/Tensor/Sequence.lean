import Mathlib
import RowMajor.Tensor.Sequence
import RowMajor.Proofs.Layout.Walk
import RowMajor.Proofs.Tensor.Access

/-! The trailing vectors and matrices of a tensor. Items and chunks cut the elements into
pieces of one length; the piece of a number is the part of the tensor whose first indices
are the multi-index of that number. -/
namespace RowMajor
open Layout (InBounds rowOffset product)
variable {α : Type}

/-! Lists cut into pieces of one length -/

/-- The piece number `k`. -/
def slice (length : Nat) (cells : List α) (k : Nat) : List α :=
  (cells.drop (k * length)).take length

theorem flatten_slices (length : Nat) (cells : List α) (first count : Nat) :
    ((List.range' first count).map (slice length cells)).flatten =
      (cells.drop (first * length)).take (count * length) := by
  induction count generalizing first with
  | zero => simp
  | succ count ih =>
      rw [List.range'_succ, List.map_cons, List.flatten_cons, ih, slice, Nat.succ_mul first,
        Nat.succ_mul count, Nat.add_comm (count * length), List.take_add, List.drop_drop]

theorem slice_flatten {length : Nat} {pieces : List (List α)}
    (uniform : ∀ piece ∈ pieces, piece.length = length) {k : Nat} (h : k < pieces.length) :
    slice length pieces.flatten k = pieces[k] := by
  induction pieces generalizing k with
  | nil => exact absurd h (Nat.not_lt_zero k)
  | cons piece rest ih =>
      have here : piece.length = length := uniform piece List.mem_cons_self
      have later := fun other mem => uniform other (List.mem_cons_of_mem piece mem)
      cases k with
      | zero =>
          rw [slice, Nat.zero_mul, List.drop_zero, List.flatten_cons, ← here, List.take_left]
          rfl
      | succ k =>
          rw [List.flatten_cons, slice, Nat.succ_mul, Nat.add_comm, ← List.drop_drop, ← here,
            List.drop_left, here]
          exact ih later (Nat.lt_of_succ_lt_succ h)

theorem length_flatten_of_uniform {length : Nat} {pieces : List (List α)}
    (uniform : ∀ piece ∈ pieces, piece.length = length) :
    pieces.flatten.length = pieces.length * length := by
  rw [List.length_flatten, List.eq_replicate_of_mem (a := length) (l := pieces.map List.length)
    (by simpa using uniform), List.sum_replicate, List.length_map, smul_eq_mul]

theorem flatten_set_slices {length count : Nat} {cells : List α}
    (full : count * length = cells.length) {k : Nat} (h : k < count) (piece : List α) :
    (((List.range count).map (slice length cells)).set k piece).flatten =
      cells.take (k * length) ++ piece ++ cells.drop ((k + 1) * length) := by
  obtain ⟨rest, rfl⟩ := Nat.exists_eq_add_of_le (Nat.succ_le_of_lt h)
  have rise : (k + 1 + rest) * length = (k + 1) * length + rest * length := Nat.add_mul ..
  have cut : (List.range (k + 1 + rest)).map (slice length cells) =
      (List.range' 0 k).map (slice length cells) ++
        slice length cells k :: (List.range' (k + 1) rest).map (slice length cells) := by
    rw [List.range_eq_range', Nat.add_assoc, Nat.add_comm 1 rest, ← List.range'_append_1,
      List.range'_succ, List.map_append, List.map_cons, Nat.zero_add]
  have width : ((List.range' 0 k).map (slice length cells)).length = k := by simp
  have last : (cells.drop ((k + 1) * length)).length = rest * length := by
    rw [List.length_drop, ← full]
    exact Nat.sub_eq_of_eq_add' rise
  rw [cut, List.set_append_right _ _ (Nat.le_of_eq width), width, Nat.sub_self, List.set_cons_zero,
    List.flatten_append, List.flatten_cons, flatten_slices, flatten_slices, Nat.zero_mul,
    List.drop_zero, ← last, List.take_length, List.append_assoc]

theorem set_slice {length : Nat} {cells : List α} {k i : Nat}
    (fits : (k + 1) * length ≤ cells.length) (h : i < length) (value : α) :
    cells.take (k * length) ++ (slice length cells k).set i value ++ cells.drop ((k + 1) * length) =
      cells.set (k * length + i) value := by
  rw [Nat.succ_mul] at fits ⊢
  have before : (cells.take (k * length)).length = k * length := by
    rw [List.length_take]
    omega
  have inside : (slice length cells k).length = length := by
    rw [slice, List.length_take, List.length_drop]
    omega
  conv_rhs => rw [← List.take_append_drop (k * length) cells,
    ← List.take_append_drop length (cells.drop (k * length)), List.drop_drop]
  rw [List.set_append_right _ _ (by omega), before, Nat.add_sub_cancel_left, ← slice,
    List.set_append_left _ _ (by omega), List.append_assoc]

/-! Splitting a layout -/

/-- How many pieces of the shape `last` there are in all. Pieces without elements are not
counted. -/
def pieceCount (first last : List Nat) : Nat :=
  if product last = 0 then 0 else product first

theorem pieceCount_mul_product (first last : List Nat) :
    pieceCount first last * product last = product (first ++ last) := by
  rw [pieceCount, Layout.product_append]
  split
  · rename_i empty
    rw [empty, Nat.zero_mul, Nat.mul_zero]
  · rfl

/-- Pieces of pieces are pieces. -/
theorem pieceCount_append (first middle last : List Nat) :
    pieceCount (first ++ middle) last =
      pieceCount first (middle ++ last) * pieceCount middle last := by
  simp only [pieceCount, Layout.product_append]
  by_cases none : product last = 0
  · simp [none]
  · by_cases empty : product middle = 0 <;> simp [none, empty]

/-- The split leaves the first dimensions outside and takes the last ones. -/
structure Split.Along {layout : Layout} (split : Split layout) (first last : List Nat) : Prop where
  shape_eq : layout.shape = first ++ last
  inner_eq : split.inner.shape = last
  count_eq : split.count = pieceCount first last

namespace Split.Along
variable {layout outer : Layout} {split : Split layout} {first last : List Nat}

theorem size_inner (h : split.Along first last) : split.inner.size = product last := by
  rw [split.inner.size_eq_product, h.inner_eq]

/-- Nothing is left over. -/
theorem total (h : split.Along first last) : split.count * split.inner.size = layout.size := by
  rw [h.size_inner, h.count_eq, pieceCount_mul_product, layout.size_eq_product, h.shape_eq]

theorem number_lt (h : split.Along first last) (made : Layout.ofShape first = .ok outer)
    {k : Nat} (hk : k < split.count) : k < outer.size := by
  rw [outer.size_eq_product, Layout.shape_of_ofShape made]
  have count := h.count_eq
  unfold pieceCount at count
  split at count
  · omega
  · omega

theorem inBounds_index (h : split.Along first last) (made : Layout.ofShape first = .ok outer)
    {k : Nat} (hk : k < split.count) : InBounds first (outer.index k) :=
  Layout.shape_of_ofShape made ▸ Layout.index_inBounds (h.number_lt made hk)

theorem rowOffset_index (h : split.Along first last) (made : Layout.ofShape first = .ok outer)
    {k : Nat} (hk : k < split.count) : rowOffset first (outer.index k) = k := by
  have here := Layout.rowOffset_index (h.number_lt made hk)
  rwa [Layout.shape_of_ofShape made] at here

end Split.Along

namespace Layout

theorem split_refuses {layout : Layout} {keep : Nat} (h : layout.rank < keep) :
    (layout.split keep).run = .ok (.error (.rankMismatch layout.rank keep)) := by
  unfold split
  rw [if_pos h]
  rfl

/-- A layout splits wherever its shape does. Nothing overflows that the layout itself has
not already computed. -/
theorem split_eq {layout : Layout} {first last : List Nat} (h : layout.shape = first ++ last) :
    ∃ split : Split layout, (layout.split last.length).run = .ok (.ok split) ∧
      split.Along first last := by
  obtain ⟨_, inner, made⟩ := exists_ofShape_append h
  have innerShape := shape_of_ofShape made
  have rank : layout.rank = first.length + last.length := by
    rw [Layout.rank, h, List.length_append]
  have trailing : layout.shape.drop (layout.rank - last.length) = last := by
    rw [rank, Nat.add_sub_cancel, h, List.drop_left]
  have size : inner.size = product last := by rw [inner.size_eq_product, innerShape]
  have total : layout.size = product first * inner.size := by
    rw [layout.size_eq_product, h, product_append, size]
  unfold split
  rw [if_neg (by omega), trailing, made]
  change ∃ split : Split layout, (ite (inner.size = 0) _ _ : Attempt (Except Fault) _).run = _ ∧ _
  by_cases none : inner.size = 0
  · rw [if_pos none]
    exact ⟨_, rfl, h, innerShape, (if_pos (size ▸ none)).symm⟩
  · rw [if_neg none]
    split
    · rename_i fault failed
      rw [layout.size_eq] at failed
      cases failed
    · rename_i count counted
      rw [layout.size_eq] at counted
      cases counted
      refine ⟨_, rfl, h, innerShape, ?_⟩
      rw [pieceCount, if_neg (size ▸ none)]
      show layout.size / inner.size = product first
      rw [total, Nat.mul_div_cancel _ (Nat.pos_of_ne_zero none)]

end Layout

namespace Tensor

/-- An item occupies a stretch of the elements. -/
theorem toList_cells_item {t : Tensor α} (split : Split t.layout) (k : Fin split.count) :
    (split.item k).cells.toList = slice split.inner.size t.cells.toList k := by
  have fits := split.item_fits k
  rw [toList_cells, toList_cells, slice, List.drop_take, List.take_take, List.drop_drop,
    Nat.min_eq_left (by omega)]
  rfl

theorem map_toList_cut {length count : Nat} {cells : List α} (h : count * length ≤ cells.length) :
    (cut length count cells h).map Vector.toList =
      (List.range count).map (slice length cells) := by
  induction count generalizing cells with
  | zero => rfl
  | succ count ih =>
      have later (k : Nat) : slice length cells (k + 1) = slice length (cells.drop length) k := by
        rw [slice, slice, List.drop_drop, Nat.succ_mul, Nat.add_comm]
      have front : slice length cells 0 = cells.take length := by
        rw [slice, Nat.zero_mul, List.drop_zero]
      rw [List.range_succ_eq_map, List.map_cons, List.map_map, front]
      simp only [Function.comp_def, Nat.succ_eq_add_one, later]
      exact congrArg _ (ih _)

/-- The elements of an item, at the size that all items have. -/
def piece {t : Tensor α} (split : Split t.layout) (k : Fin split.count) :
    Vector α split.inner.size :=
  (split.item k).cells

theorem cut_eq_map_piece {t : Tensor α} (split : Split t.layout)
    (h : split.count * split.inner.size ≤ t.cells.toList.length) :
    cut split.inner.size split.count t.cells.toList h =
      (List.finRange split.count).map (piece split) := by
  apply List.map_injective_iff.mpr fun _ _ => Vector.toList_inj.mp
  rw [map_toList_cut, List.map_map, ← List.map_coe_finRange_eq_range, List.map_map]
  exact List.map_congr_left fun k _ => (toList_cells_item split k).symm

/-- Chunks are copies of the items. -/
theorem map_cut_eq_map_copy {t : Tensor α} (split : Split t.layout)
    (h : split.count * split.inner.size ≤ t.cells.toList.length) :
    (cut split.inner.size split.count t.cells.toList h).map (compact split.inner) =
      (List.finRange split.count).map fun k => (split.item k).copy := by
  rw [cut_eq_map_piece, List.map_map]
  rfl

theorem toList_cells_withChunks {t : Tensor α} {chunks : List (Tensor α)}
    (h : (chunks.map fun chunk => chunk.cells.toList).flatten.length = t.layout.size) :
    (t.withChunks chunks).cells.toList = (chunks.map fun chunk => chunk.cells.toList).flatten := by
  have full :
      0 + (chunks.flatMap fun chunk => chunk.cells.toList).toArray.size = t.layout.size := by
    rw [Nat.zero_add, List.size_toArray, List.flatMap_def, h]
  rw [withChunks, toList_cells_splice (Nat.le_of_eq full), full, List.take_zero, List.nil_append,
    List.drop_of_length_le (by rw [Vector.length_toList]), List.append_nil, List.flatMap_def]

theorem toList_cells_withChunk {t chunk : Tensor α} {k : Nat}
    (h : k * chunk.size + chunk.size ≤ t.layout.size) :
    (t.withChunk k chunk).cells.toList = t.cells.toList.take (k * chunk.size) ++
      chunk.cells.toList ++ t.cells.toList.drop ((k + 1) * chunk.size) := by
  rw [withChunk, toList_cells_splice (by rwa [Vector.size_toArray]), Vector.size_toArray,
    Nat.succ_mul]
  rfl

/-! Items and chunks along a split -/

theorem items_refuse {t : Tensor α} {keep : Nat} (h : t.rank < keep) :
    (t.items keep).run = .ok (.error (.rankMismatch t.rank keep)) := by
  rw [items, ExceptT.run_bind, Layout.split_refuses h]
  rfl

theorem chunks_refuse {t : Tensor α} {keep : Nat} (h : t.rank < keep) :
    (t.chunks keep).run = .ok (.error (.rankMismatch t.rank keep)) := by
  rw [chunks, ExceptT.run_bind, Layout.split_refuses h]
  rfl

theorem sequences_eq {t : Tensor α} {first last : List Nat} (h : t.shape = first ++ last) :
    ∃ split : Split t.layout, split.Along first last ∧
      (t.items last.length).run = .ok (.ok ((List.finRange split.count).map split.item)) ∧
      (t.chunks last.length).run =
        .ok (.ok ((List.finRange split.count).map fun k => (split.item k).copy)) := by
  obtain ⟨split, found, along⟩ := Layout.split_eq h
  refine ⟨split, along, ?_, ?_⟩
  · rw [items, ExceptT.run_bind, found]
    rfl
  · rw [chunks, ExceptT.run_bind, found, ← map_cut_eq_map_copy split]
    rfl

section Along
variable {t : Tensor α} {split : Split t.layout} {outer : Layout} {first last : List Nat}

theorem addressable_item (ht : t.Addressable) (k : Fin split.count) :
    (split.item k).Addressable := by
  have fits := split.item_fits k
  simp only [Addressable, Split.item] at ht ⊢
  omega

theorem isPart_item (ht : t.Addressable) (h : split.Along first last)
    (made : Layout.ofShape first = .ok outer) (k : Fin split.count) :
    t.IsPart (outer.index k) (split.item k) := by
  refine isPart_of_cells ht (addressable_item ht k) h.shape_eq (h.inBounds_index made k.isLt)
    h.inner_eq ?_
  rw [toList_cells_item, h.rowOffset_index made k.isLt, slice, h.size_inner]

/-- All elements of chunks of one shape, when there are as many as items. -/
theorem toList_cells_withChunks_of_shape (h : split.Along first last) {chunks : List (Tensor α)}
    (count : chunks.length = split.count) (shapes : ∀ chunk ∈ chunks, chunk.shape = last) :
    (t.withChunks chunks).cells.toList = (chunks.map fun chunk => chunk.cells.toList).flatten ∧
      ∀ piece ∈ chunks.map fun chunk => chunk.cells.toList, piece.length = product last := by
  have uniform : ∀ piece ∈ chunks.map fun chunk => chunk.cells.toList,
      piece.length = product last := by
    intro piece mem
    obtain ⟨chunk, member, rfl⟩ := List.mem_map.mp mem
    rw [Vector.length_toList, chunk.size_eq_product, shapes chunk member]
  refine ⟨toList_cells_withChunks ?_, uniform⟩
  rw [length_flatten_of_uniform uniform, List.length_map, count, ← h.size_inner, h.total]

end Along

end Tensor
end RowMajor

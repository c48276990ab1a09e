import Mathlib
import RowMajor.Tensor
import RowMajor.Proofs.Layout.Position

/-! Elements of tensors by multi-index and by position. A part of a tensor is what is left
of it when the first indices are fixed. -/
namespace RowMajor.Tensor
open Layout (InBounds rowOffset product)
variable {α : Type}

/-- The places of all elements are numbers in range. -/
def Addressable (t : Tensor α) : Prop :=
  t.start + t.layout.size ≤ Word.bound

/-- The store is not longer than there are numbers for its places. -/
def Bounded (t : Tensor α) : Prop :=
  t.store.size < Word.bound

theorem bounded_compact (layout : Layout) (cells : Vector α layout.size) :
    (compact layout cells).Bounded := by
  rw [Bounded, compact, Vector.size_toArray]
  exact layout.size_lt

theorem addressable_of_store {t : Tensor α} (h : t.store.size < Word.bound) : t.Addressable :=
  Nat.le_of_lt (Nat.lt_of_le_of_lt t.fits h)

theorem addressable_compact (layout : Layout) (cells : Vector α layout.size) :
    (compact layout cells).Addressable := by
  simp only [Addressable, compact, Nat.zero_add]
  exact Nat.le_of_lt layout.size_lt

theorem size_eq_product (t : Tensor α) : t.layout.size = product t.shape :=
  t.layout.size_eq_product

theorem toList_cells (t : Tensor α) :
    t.cells.toList = (t.store.toList.drop t.start).take t.layout.size := by
  change (t.store.extract t.start (t.start + t.layout.size)).toList = _
  rw [Array.toList_extract, List.extract_eq_take_drop, Nat.add_sub_cancel_left]

theorem toList_cells_compact (layout : Layout) (cells : Vector α layout.size) :
    (compact layout cells).cells.toList = cells.toList :=
  congrArg Vector.toList (cells_compact layout cells)

theorem toList_cells_filledLike (layout : Layout) (value : α) :
    (filledLike layout value).cells.toList = List.replicate layout.size value :=
  (toList_cells_compact layout _).trans Vector.toList_replicate

theorem toList_cells_copy (t : Tensor α) : t.copy.cells.toList = t.cells.toList :=
  toList_cells_compact t.layout t.cells

theorem place_eq {t : Tensor α} (h : t.Addressable) {index : List Nat}
    (hi : InBounds t.shape index) : t.place index = .ok (t.start + rowOffset t.shape index) := by
  have small : rowOffset t.shape index < t.layout.size :=
    t.size_eq_product ▸ Layout.rowOffset_lt hi
  simp only [place, Layout.offset_eq hi, bind, Except.bind]
  exact Word.add_eq_ok.mpr ⟨Nat.lt_of_lt_of_le (Nat.add_lt_add_left small _) h, rfl⟩

/-- The element at a multi-index in bounds is the one at its position. -/
theorem read_eq {t : Tensor α} (h : t.Addressable) {index : List Nat}
    (hi : InBounds t.shape index) :
    ∃ x, t.cells.toList[rowOffset t.shape index]? = some x ∧ t.read index = .ok x := by
  have small : rowOffset t.shape index < t.layout.size :=
    t.size_eq_product ▸ Layout.rowOffset_lt hi
  have stored := t.place_lt small
  refine ⟨t.store[t.start + rowOffset t.shape index], ?_, ?_⟩
  · rw [toList_cells, List.getElem?_take_of_lt small, List.getElem?_drop,
      List.getElem?_eq_getElem (by simpa using stored), Array.getElem_toList]
  · simp only [read, place_eq h hi, bind, Except.bind, Array.getElem?_eq_getElem stored]

theorem read_eq_ok {t : Tensor α} (h : t.Addressable) {index : List Nat}
    (hi : InBounds t.shape index) {x : α}
    (here : t.cells.toList[rowOffset t.shape index]? = some x) : t.read index = .ok x := by
  obtain ⟨y, there, read⟩ := read_eq h hi
  rw [read, Option.some.inj (there.symm.trans here)]

/-- The tensor with the element at one position replaced. -/
def put (t : Tensor α) (position : Nat) (value : α) : Tensor α :=
  { t with
    store := t.store.setIfInBounds (t.start + position) value
    fits := by rw [Array.size_setIfInBounds]; exact t.fits }

theorem write_eq {t : Tensor α} (h : t.Addressable) {index : List Nat}
    (hi : InBounds t.shape index) (value : α) :
    t.write index value = .ok (t.put (rowOffset t.shape index) value) := by
  have stored := t.place_lt (t.size_eq_product ▸ Layout.rowOffset_lt hi)
  simp only [write, place_eq h hi, bind, Except.bind, dif_pos stored, pure, Except.pure, put,
    Array.setIfInBounds]

theorem toList_cells_put (t : Tensor α) (position : Nat) (value : α) :
    (t.put position value).cells.toList = t.cells.toList.set position value := by
  rw [toList_cells, toList_cells, put, Array.toList_setIfInBounds, ← List.set_drop, ← List.take_set]

theorem getElem?_store (t : Tensor α) {i : Nat} (h : i < t.layout.size) :
    t.store[t.start + i]? = t.cells.toList[i]? := by
  rw [toList_cells, List.getElem?_take_of_lt h, List.getElem?_drop, Array.getElem?_toList]

/-- What is spliced in replaces as many elements. -/
theorem toList_cells_splice {t : Tensor α} {first : Nat} {values : Array α}
    (h : first + values.size ≤ t.layout.size) :
    (t.splice first values).cells.toList =
      t.cells.toList.take first ++ values.toList ++ t.cells.toList.drop (first + values.size) := by
  have width : (t.cells.toList.take first).length = first := by
    rw [List.length_take, Vector.length_toList]
    omega
  apply List.ext_getElem
  · rw [List.length_append, List.length_append, width, List.length_drop, Vector.length_toList,
      Vector.length_toList, layout_splice, Array.length_toList]
    omega
  · intro i here _
    have hi : i < t.layout.size := by rwa [Vector.length_toList, layout_splice] at here
    have spliced := getElem_cells_splice t first values hi
    rw [Vector.getElem_toList]
    refine spliced.trans ?_
    by_cases before : i < first
    · rw [if_neg (by omega), List.getElem_append_left (by simp; omega),
        List.getElem_append_left (by omega), List.getElem_take, Vector.getElem_toList]
    · by_cases inside : i < first + values.size
      · rw [if_pos (by omega), List.getElem_append_left (by simp; omega),
          List.getElem_append_right (by omega)]
        have small : i - first < values.size := by omega
        simp only [width, Array.getElem_toList, Array.getD, dif_pos small]
        rfl
      · rw [if_pos (by omega), List.getElem_append_right (by simp; omega), List.getElem_drop,
          Array.getD, dif_neg (by omega)]
        simp only [List.length_append, width, Array.length_toList, Vector.getElem_toList]
        congr 1
        omega

/-- The two tensors lie in the same place, and their stores agree outside it. -/
structure AgreesAround (t s : Tensor α) : Prop where
  layout_eq : s.layout = t.layout
  start_eq : s.start = t.start
  outside : ∀ p, p < t.start ∨ t.start + t.layout.size ≤ p → s.store[p]? = t.store[p]?

/-- Then only their elements can tell them apart. -/
theorem AgreesAround.unique {t s s' : Tensor α} (h : t.AgreesAround s) (h' : t.AgreesAround s')
    (cells : s.cells.toList = s'.cells.toList) : s = s' := by
  have inside (p : Nat) (low : t.start ≤ p) (high : p < t.start + t.layout.size) :
      s.store[p]? = s'.store[p]? := by
    obtain ⟨i, rfl⟩ := Nat.exists_eq_add_of_le low
    have small : i < t.layout.size := Nat.lt_of_add_lt_add_left high
    have left := s.getElem?_store (h.layout_eq ▸ small)
    have right := s'.getElem?_store (h'.layout_eq ▸ small)
    rw [h.start_eq] at left
    rw [h'.start_eq] at right
    rw [left, right, cells]
  have store : s.store = s'.store := by
    apply Array.ext_getElem?
    intro p
    by_cases here : t.start ≤ p ∧ p < t.start + t.layout.size
    · exact inside p here.1 here.2
    · have around : p < t.start ∨ t.start + t.layout.size ≤ p := by omega
      rw [h.outside p around, h'.outside p around]
  have layout := h.layout_eq.trans h'.layout_eq.symm
  have start := h.start_eq.trans h'.start_eq.symm
  cases s
  cases s'
  cases layout
  cases store
  cases start
  rfl

theorem agreesAround_put (t : Tensor α) {position : Nat} (h : position < t.layout.size)
    (value : α) : t.AgreesAround (t.put position value) where
  layout_eq := rfl
  start_eq := rfl
  outside p around := by
    rw [put, Array.getElem?_setIfInBounds_ne (by omega)]

theorem agreesAround_splice (t : Tensor α) (first : Nat) (values : Array α) :
    t.AgreesAround (t.splice first values) where
  layout_eq := rfl
  start_eq := rfl
  outside p around := by
    have kept : ¬ (t.start + first ≤ p ∧ p < t.start + t.layout.size) := by omega
    rw [splice, Array.getElem?_mapIdx]
    simp only [if_neg kept, Option.map_id']

/-- The tensor that is left of `t` when its first indices are `b`. -/
structure IsPart (t : Tensor α) (b : List Nat) (part : Tensor α) : Prop where
  shape_eq : t.shape.drop b.length = part.shape
  read_eq : ∀ j, InBounds part.shape j → ∃ x, t.read (b ++ j) = .ok x ∧ part.read j = .ok x

/-- A part occupies the positions that begin with its own. -/
theorem isPart_of_cells {t part : Tensor α} (ht : t.Addressable) (hp : part.Addressable)
    {first last b : List Nat} (shape : t.shape = first ++ last) (hb : InBounds first b)
    (partShape : part.shape = last)
    (cells : part.cells.toList =
      (t.cells.toList.drop (rowOffset first b * product last)).take (product last)) :
    t.IsPart b part where
  shape_eq := by rw [shape, partShape, ← List.Forall₂.length_eq hb, List.drop_left]
  read_eq j hj := by
    have whole : InBounds t.shape (b ++ j) :=
      shape ▸ Layout.inBounds_append hb (partShape ▸ hj)
    obtain ⟨x, here, read⟩ := Tensor.read_eq hp hj
    refine ⟨x, read_eq_ok ht whole ?_, read⟩
    rw [partShape] at hj here
    rw [← here, shape, cells, Layout.rowOffset_append hb,
      List.getElem?_take_of_lt (Layout.rowOffset_lt hj), List.getElem?_drop]

end RowMajor.Tensor

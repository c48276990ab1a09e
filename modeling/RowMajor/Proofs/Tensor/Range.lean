import Mathlib
import RowMajor.Proofs.Layout.Walk
import RowMajor.Proofs.Tensor.Sequence

/-! Numbers that indexing computes. Once there is a layout, no later sum or product leaves the
range of sizes, nothing is divided by zero, and no place lies outside the store. What the
library computes with unbounded numbers is computed here again with every step checked. -/
namespace RowMajor

namespace Layout

/-- Decoding with every divisor checked. -/
def decode? : List Nat → Nat → Option (List Nat)
  | [], _ => some []
  | stride :: strides, position =>
    if stride = 0 then none
    else (position / stride :: ·) <$> decode? strides (position % stride)

theorem decode?_eq {strides : List Nat} (positive : ∀ stride ∈ strides, 0 < stride)
    (position : Nat) : decode? strides position = some (decode strides position) := by
  induction strides generalizing position with
  | nil => rfl
  | cons stride strides ih =>
      have some : stride ≠ 0 := Nat.ne_of_gt (positive stride List.mem_cons_self)
      have later := ih fun other mem => positive other (List.mem_cons_of_mem stride mem)
      rw [decode?, if_neg some, later, decode]
      rfl

theorem length_decode (strides : List Nat) (position : Nat) :
    (decode strides position).length = strides.length := by
  induction strides generalizing position with
  | nil => rfl
  | cons stride strides ih => exact congrArg Nat.succ (ih _)

/-- No index is greater than the position that it is decoded from. -/
theorem le_of_mem_decode {strides : List Nat} {position : Nat} :
    ∀ i ∈ decode strides position, i ≤ position := by
  induction strides generalizing position with
  | nil => exact fun i mem => absurd mem List.not_mem_nil
  | cons stride strides ih =>
      intro i mem
      rcases List.mem_cons.mp mem with rfl | later
      · exact Nat.div_le_self position stride
      · exact Nat.le_trans (ih i later) (Nat.mod_le position stride)

end Layout

namespace Cursor

/-- The walk with every place counted as a word. -/
def take? : Nat → Cursor → Except Fault (List (List Nat) × Cursor)
  | 0, cursor => .ok ([], cursor)
  | count + 1, cursor =>
    if cursor.position < cursor.layout.size then do
      let position ← Word.add cursor.position 1
      let (indices, rest) ← take? count ⟨cursor.layout, position⟩
      return (cursor.layout.index cursor.position :: indices, rest)
    else .ok ([], cursor)

theorem take?_eq (cursor : Cursor) (count : Nat) :
    cursor.take? count = .ok (cursor.take count) := by
  induction count generalizing cursor with
  | zero => rfl
  | succ count ih =>
      rw [take?, take, next?]
      by_cases before : cursor.position < cursor.layout.size
      · -- A place before the end is a size itself, and so is the next one.
        have next : Word.add cursor.position 1 = .ok (cursor.position + 1) :=
          Word.add_eq_ok.mpr ⟨Nat.lt_of_le_of_lt before cursor.layout.size_lt, rfl⟩
        rw [if_pos before, if_pos before, next]
        simp only [bind, Except.bind, ih]
        rfl
      · rw [if_neg before, if_neg before]

end Cursor

/-- Where an item begins, as a sum and a product of words. -/
def Split.start? {α : Type} {t : Tensor α} (split : Split t.layout) (k : Fin split.count) :
    Except Fault Nat := do
  Word.add t.start (← Word.mul k split.inner.size)

/-- Whatever is asked of the layout, there is an answer in range. -/
structure Layout.IsInRange (layout : Layout) : Prop where
  again : Layout.ofShape layout.shape = .ok layout
  index : ∀ position < Word.bound,
    Layout.decode? layout.strides position = some (layout.index position) ∧
      (layout.index position).length = layout.rank ∧ ∀ i ∈ layout.index position, i < Word.bound
  indexInto : ∀ position, layout.indexInto position layout.rank = .ok (layout.index position)
  offset : ∀ {index}, Layout.InBounds layout.shape index →
    ∃ position < layout.size, layout.offset index = .ok position
  walk : ∀ count, (Cursor.atStart layout).take? count = .ok ((Cursor.atStart layout).take count)
  split : ∀ keep ≤ layout.rank, ∃ split : Split layout,
    (layout.split keep).run = .ok (.ok split) ∧
      Layout.ofShape (layout.shape.drop (layout.rank - keep)) = .ok split.inner
  tooDeep : ∀ keep, layout.rank < keep →
    (layout.split keep).run = .ok (.error (.rankMismatch layout.rank keep))
  stretch : ∀ {length : Nat}, length < Word.bound → ∀ start,
    Tensor.requireStretch length start layout.size =
      if fits : start + layout.size ≤ length then .ok ⟨fits⟩
      else .error (.bufferLength (min (start + layout.size) Word.top) length)

/-- Whatever is asked of the tensor, there is an answer inside its store. -/
structure Tensor.IsInRange {α : Type} (t : Tensor α) : Prop where
  region : Word.add t.start t.size = .ok (t.start + t.size) ∧ t.start + t.size ≤ t.store.size
  place : ∀ {index}, Layout.InBounds t.shape index → ∃ p < t.store.size, t.place index = .ok p
  read : ∀ count, ∀ index ∈ ((Cursor.atStart t.layout).take count).1, ∃ x, t.read index = .ok x
  item : ∀ (split : Split t.layout) (k : Fin split.count),
    split.start? k = .ok (split.item k).start ∧
      (split.item k).start + split.inner.size ≤ t.store.size

/-- A sum that leaves the range is met before it is compared. -/
theorem Tensor.requireStretch_eq {length : Nat} (bounded : length < Word.bound) (start size : Nat) :
    Tensor.requireStretch length start size =
      if fits : start + size ≤ length then .ok ⟨fits⟩
      else .error (.bufferLength (min (start + size) Word.top) length) := by
  rw [Tensor.requireStretch]
  by_cases small : start + size < Word.bound
  · have most : start + size ≤ Word.top := Nat.le_sub_one_of_lt small
    rw [if_pos small, Nat.min_eq_left most]
  · have much : ¬ start + size ≤ length := by omega
    have top : Word.top ≤ start + size := Nat.le_trans (Nat.sub_le ..) (Nat.le_of_not_lt small)
    rw [if_neg small, dif_neg much, Nat.min_eq_right top]

namespace Layout

theorem isInRange (layout : Layout) : layout.IsInRange where
  again := ofShape_self layout
  index position bounded := by
    refine ⟨?_, ?_, fun i mem => Nat.lt_of_le_of_lt (le_of_mem_decode i mem) bounded⟩
    · exact decode?_eq (strides_eq_placeValues layout ▸ pos_of_mem_placeValues) position
    · rw [Layout.index, length_decode, length_strides]
  indexInto position := if_pos layout.length_strides.symm
  offset h := ⟨_, layout.size_eq_product ▸ rowOffset_lt h, offset_eq h⟩
  walk := (Cursor.atStart layout).take?_eq
  split keep most := by
    have parts := List.take_append_drop (layout.rank - keep) layout.shape
    have kept : (layout.shape.drop (layout.rank - keep)).length = keep := by
      rw [List.length_drop]
      exact Nat.sub_sub_self most
    obtain ⟨split, found, along⟩ := split_eq parts.symm
    rw [kept] at found
    exact ⟨split, found, along.inner_eq ▸ ofShape_self split.inner⟩
  tooDeep _ more := split_refuses more
  stretch bounded start := Tensor.requireStretch_eq bounded start layout.size

end Layout

namespace Tensor
variable {α : Type}

theorem isInRange {t : Tensor α} (bounded : t.store.size < Word.bound) : t.IsInRange where
  region := ⟨Word.add_eq_ok.mpr ⟨Nat.lt_of_le_of_lt t.fits bounded, rfl⟩, t.fits⟩
  place hi := ⟨_, t.place_lt (t.size_eq_product ▸ Layout.rowOffset_lt hi),
    place_eq (addressable_of_store bounded) hi⟩
  read count index mem := by
    have seen := (t.layout.yields_multiIndices.take count).1
    have inside := Layout.mem_multiIndices.mp (List.mem_of_mem_take (seen ▸ mem))
    obtain ⟨x, _, read⟩ := read_eq (addressable_of_store bounded) inside
    exact ⟨x, read⟩
  item split k := by
    have fits := split.item_fits k
    have inside : t.start + k * split.inner.size + split.inner.size ≤ t.store.size := by
      have := t.fits
      omega
    have step : Word.mul k split.inner.size = .ok (k * split.inner.size) :=
      Word.mul_eq_ok.mpr ⟨by omega, rfl⟩
    refine ⟨?_, inside⟩
    simp only [Split.start?, step, bind, Except.bind]
    exact Word.add_eq_ok.mpr ⟨by omega, rfl⟩

end Tensor

/-- Once a shape has a layout, all that is computed from the layout and from tensors of this
shape stays in range. -/
theorem Layout.indexing_isInRange {shape : List Nat} {layout : Layout}
    (made : Layout.ofShape shape = .ok layout) :
    layout.shape = shape ∧ layout.IsInRange ∧
      ∀ {α : Type} (t : Tensor α), t.layout = layout → t.store.size < Word.bound → t.IsInRange :=
  ⟨Layout.shape_of_ofShape made, layout.isInRange, fun _ _ bounded => Tensor.isInRange bounded⟩

/-- No elements, in the shape of matrices that are larger than any memory. -/
def hugeMatrices : Tensor Nat :=
  ⟨⟨[0, 0x100000000, 0x80000000], [0x8000000000000000, 0x80000000, 1], 0, by decide, by decide⟩,
    #[7, 7], 1, by decide⟩

theorem Layout.indexing_isInRange_hugeMatrices :
    Layout.ofShape [0, 0x100000000, 0x80000000] = .ok hugeMatrices.layout ∧
      hugeMatrices.layout.IsInRange ∧ hugeMatrices.IsInRange :=
  have made : Layout.ofShape [0, 0x100000000, 0x80000000] = .ok hugeMatrices.layout :=
    Layout.ofShape_self hugeMatrices.layout
  have ranged := Layout.indexing_isInRange made
  ⟨made, ranged.2.1, ranged.2.2 hugeMatrices rfl (by decide)⟩

end RowMajor

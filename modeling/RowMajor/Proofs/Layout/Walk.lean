import Mathlib
import RowMajor.Layout.Cursor
import RowMajor.Proofs.Layout.Position

/-! The walk through a layout. Offsets number the multi-indices in lexicographic order
without a gap, and a cursor meets each of them once, in that order. -/
namespace RowMajor

namespace Cursor

/-- From here on the cursor yields these multi-indices and then stops. -/
inductive Yields : Cursor → List (List Nat) → Prop
  | done {cursor : Cursor} : cursor.next? = none → Yields cursor []
  | more {cursor after : Cursor} {index : List Nat} {rest : List (List Nat)} :
      cursor.next? = some (index, after) → Yields after rest → Yields cursor (index :: rest)

/-- A step is a fixed one: the multi-index of the place, and the next place. -/
theorem next?_eq_some_iff {cursor after : Cursor} {index : List Nat} :
    cursor.next? = some (index, after) ↔
      cursor.position < cursor.layout.size ∧ index = cursor.layout.index cursor.position ∧
        after = ⟨cursor.layout, cursor.position + 1⟩ := by
  unfold next?
  split
  · rename_i before
    rw [Option.some.injEq, Prod.mk.injEq]
    exact ⟨fun ⟨i, a⟩ => ⟨before, i.symm, a.symm⟩, fun ⟨_, i, a⟩ => ⟨i.symm, a.symm⟩⟩
  · rename_i past
    exact iff_of_false (by simp) (fun h => past h.1)

theorem next?_eq_none_iff {cursor : Cursor} : cursor.next? = none ↔ cursor.remaining = 0 := by
  unfold next? remaining
  split
  · rename_i before
    exact iff_of_false (by simp) (by omega)
  · exact iff_of_true rfl (by omega)

theorem Yields.remaining_eq {cursor : Cursor} {rest : List (List Nat)} (h : cursor.Yields rest) :
    cursor.remaining = rest.length := by
  induction h with
  | done none => exact next?_eq_none_iff.mp none
  | more step _ ih =>
      obtain ⟨before, _, rfl⟩ := next?_eq_some_iff.mp step
      rw [List.length_cons, ← ih]
      simp only [remaining]
      omega

/-- Steps taken together split the walk where they end. -/
theorem Yields.take {cursor : Cursor} {rest : List (List Nat)} (h : cursor.Yields rest)
    (count : Nat) : (cursor.take count).1 = rest.take count ∧
      (cursor.take count).2.Yields (rest.drop count) := by
  induction count generalizing cursor rest with
  | zero => exact ⟨rfl, h⟩
  | succ count ih =>
      cases h with
      | done none =>
          simp only [Cursor.take, none]
          exact ⟨rfl, .done none⟩
      | more step later =>
          obtain ⟨seen, still⟩ := ih later
          simp only [Cursor.take, step, List.take_succ_cons, List.drop_succ_cons]
          exact ⟨congrArg _ seen, still⟩

theorem yields_from (layout : Layout) {position count : Nat}
    (h : position + count = layout.size) :
    Yields ⟨layout, position⟩ ((List.range' position count).map layout.index) := by
  induction count generalizing position with
  | zero => exact .done (next?_eq_none_iff.mpr (by simp only [remaining]; omega))
  | succ count ih =>
      have before : position < layout.size := by omega
      have later : position + 1 + count = layout.size := by omega
      rw [List.range'_succ, List.map_cons]
      exact .more (next?_eq_some_iff.mpr ⟨before, rfl, rfl⟩) (ih later)

end Cursor

namespace Layout

/-- Every multi-index in bounds, in the order of the positions. -/
def multiIndices (layout : Layout) : List (List Nat) :=
  (List.range layout.size).map layout.index

theorem yields_multiIndices (layout : Layout) :
    (Cursor.atStart layout).Yields layout.multiIndices := by
  rw [multiIndices, List.range_eq_range']
  exact Cursor.yields_from layout (Nat.zero_add _)

theorem length_multiIndices (layout : Layout) : layout.multiIndices.length = layout.size := by
  rw [multiIndices, List.length_map, List.length_range]

theorem multiIndices_found {layout : Layout} {position : Nat} {index : List Nat}
    (here : layout.multiIndices[position]? = some index) :
    position < layout.size ∧ layout.index position = index := by
  rw [multiIndices, List.getElem?_map, Option.map_eq_some_iff] at here
  obtain ⟨counted, there, found⟩ := here
  obtain ⟨small, rfl⟩ := List.getElem?_eq_some_iff.mp there
  rw [List.length_range] at small
  rw [List.getElem_range] at found
  exact ⟨small, found⟩

theorem mem_multiIndices {layout : Layout} {index : List Nat} :
    index ∈ layout.multiIndices ↔ InBounds layout.shape index := by
  simp only [multiIndices, List.mem_map, List.mem_range]
  constructor
  · rintro ⟨position, before, rfl⟩
    exact index_inBounds before
  · intro h
    exact ⟨_, layout.size_eq_product ▸ rowOffset_lt h, index_rowOffset h⟩

theorem getElem?_multiIndices {layout : Layout} {index : List Nat}
    (hi : InBounds layout.shape index) :
    layout.multiIndices[rowOffset layout.shape index]? = some index := by
  have small : rowOffset layout.shape index < layout.size :=
    layout.size_eq_product ▸ rowOffset_lt hi
  rw [multiIndices, List.getElem?_map, List.getElem?_range small]
  exact congrArg some (index_rowOffset hi)

theorem pairwise_multiIndices (layout : Layout) : layout.multiIndices.Pairwise (· < ·) := by
  rw [multiIndices, List.pairwise_map]
  refine List.Pairwise.imp_of_mem ?_ List.pairwise_lt_range
  intro p q hp hq before
  rw [← rowOffset_index (List.mem_range.mp hp), ← rowOffset_index (List.mem_range.mp hq)] at before
  exact (rowOffset_lt_rowOffset (index_inBounds (List.mem_range.mp hp))
    (index_inBounds (List.mem_range.mp hq))).mp before

/-- Multi-indices in bounds and positions below the size, one for one. -/
def positionEquiv (layout : Layout) :
    { index // InBounds layout.shape index } ≃ Fin layout.size where
  toFun index := ⟨rowOffset layout.shape index.1, layout.size_eq_product ▸ rowOffset_lt index.2⟩
  invFun position := ⟨layout.index position, index_inBounds position.isLt⟩
  left_inv index := Subtype.ext (index_rowOffset index.2)
  right_inv position := Fin.ext (rowOffset_index position.isLt)

/-- Offsets are the order isomorphism from the multi-indices onto the positions, decoding
a position is its inverse, and the walk lists the multi-indices in their order. After any
number of steps the rest of the list is still to come, and is counted exactly. -/
theorem offset_isEnumeration {shape : List Nat} {layout : Layout}
    (made : ofShape shape = .ok layout) :
    (∃ place : { index // InBounds shape index } ≃ Fin layout.size,
      (∀ index, layout.offset index.1 = .ok (place index)) ∧
      (∀ a b, place a < place b ↔ a.1 < b.1) ∧
      (∀ index, layout.index (place index) = index.1) ∧
      ∀ position : Fin layout.size, layout.index position = place.symm position ∧
        layout.offset (layout.index position) = .ok position) ∧
    ∃ all : List (List Nat), all.Pairwise (· < ·) ∧ (∀ index, index ∈ all ↔ InBounds shape index) ∧
      (Cursor.atStart layout).Yields all ∧
      ∀ count, ((Cursor.atStart layout).take count).1 = all.take count ∧
        ((Cursor.atStart layout).take count).2.Yields (all.drop count) ∧
        ((Cursor.atStart layout).take count).2.remaining = (all.drop count).length := by
  obtain rfl := shape_of_ofShape made
  constructor
  · refine ⟨layout.positionEquiv, fun index => offset_eq index.2, fun a b => ?_,
      fun index => index_rowOffset index.2, fun position => ⟨rfl, ?_⟩⟩
    · exact rowOffset_lt_rowOffset a.2 b.2
    · rw [offset_eq (index_inBounds position.isLt), rowOffset_index position.isLt]
  · refine ⟨layout.multiIndices, layout.pairwise_multiIndices, fun _ => mem_multiIndices,
      layout.yields_multiIndices, fun count => ?_⟩
    obtain ⟨seen, still⟩ := layout.yields_multiIndices.take count
    exact ⟨seen, still, still.remaining_eq⟩

/-- Three dimensions of different sizes. -/
def unequalSizes : Layout :=
  ⟨[2, 3, 2], [6, 2, 1], 12, rfl, rfl⟩

theorem offset_isEnumeration_unequalSizes :
    ofShape [2, 3, 2] = .ok unequalSizes ∧
    (∃ place : { index // InBounds [2, 3, 2] index } ≃ Fin 12,
      (∀ index, unequalSizes.offset index.1 = .ok (place index)) ∧
      (∀ a b, place a < place b ↔ a.1 < b.1) ∧
      (∀ index, unequalSizes.index (place index) = index.1) ∧
      ∀ position : Fin 12, unequalSizes.index position = place.symm position ∧
        unequalSizes.offset (unequalSizes.index position) = .ok position) ∧
    ∃ all : List (List Nat), all.Pairwise (· < ·) ∧
      (∀ index, index ∈ all ↔ InBounds [2, 3, 2] index) ∧
      (Cursor.atStart unequalSizes).Yields all ∧
      ∀ count, ((Cursor.atStart unequalSizes).take count).1 = all.take count ∧
        ((Cursor.atStart unequalSizes).take count).2.Yields (all.drop count) ∧
        ((Cursor.atStart unequalSizes).take count).2.remaining = (all.drop count).length :=
  have made : ofShape [2, 3, 2] = .ok unequalSizes := rfl
  ⟨made, offset_isEnumeration made⟩

end Layout
end RowMajor

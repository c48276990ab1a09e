import Mathlib
import RowMajor.Structure
import RowMajor.Proofs.Layout.Walk
import RowMajor.Proofs.Tensor.Access

/-! The elements of a structure in row-major order. Reading gives them one by one, and storing
the structure keeps them. -/
namespace RowMajor.Structure
open Layout (InBounds rowOffset)
variable {α : Type}

/-- No store has more places than there are numbers for them. -/
def Bounded : Structure α → Prop
  | .stored tensor => tensor.Bounded
  | .lazy .. => True

def elements : Structure α → List α
  | .stored tensor => tensor.cells.toList
  | .lazy layout value => layout.multiIndices.map value

theorem length_elements (s : Structure α) : s.elements.length = s.layout.size := by
  cases s with
  | stored tensor => exact Vector.length_toList
  | lazy layout value =>
      rw [elements, List.length_map, Layout.length_multiIndices]
      rfl

/-- What is read at a multi-index is the element at its position. -/
theorem read_eq {s : Structure α} (h : s.Bounded) {index : List Nat} (hi : InBounds s.shape index) :
    ∃ x, s.elements[rowOffset s.shape index]? = some x ∧ s.read index = .ok x := by
  cases s with
  | stored tensor => exact Tensor.read_eq (Tensor.addressable_of_store h) hi
  | lazy layout value =>
      refine ⟨value index, ?_, rfl⟩
      rw [elements, List.getElem?_map]
      exact congrArg (Option.map value) (Layout.getElem?_multiIndices hi)

theorem read_index {s : Structure α} (h : s.Bounded) {position : Nat} {x : α}
    (here : s.elements[position]? = some x) : s.read (s.layout.index position) = .ok x := by
  have before : position < s.layout.size := by
    rw [← length_elements]
    exact (List.getElem?_eq_some_iff.mp here).1
  obtain ⟨y, there, read⟩ := read_eq h (Layout.index_inBounds before)
  rw [shape, Layout.rowOffset_index before, here] at there
  rw [read, Option.some.inj there]

/-! Storing -/

theorem flat_lazy (layout : Layout) (value : List Nat → α) (room : layout.size < Word.room) :
    (lazy layout value).flat = .ok (Tensor.compact layout (layout.indices.map value)) := by
  rw [flat, Tensor.generate, Word.requireRoom_eq_ok.mpr room]
  have all : layout.indices.mapM (fun index => (.ok (value index) : Except Fault α)) =
      .ok (layout.indices.map value) := Vector.mapM_pure value
  exact congrArg (Tensor.compact layout <$> ·) all

theorem flat_lazy_noRoom (layout : Layout) (value : List Nat → α)
    (large : ¬ layout.size < Word.room) : (lazy layout value).flat = .error .noRoom := by
  rw [flat, Tensor.generate, Word.requireRoom, if_neg large]
  rfl

theorem exists_flat {s : Structure α} (room : s.layout.size < Word.room) :
    ∃ t, s.flat = .ok t := by
  cases s with
  | stored tensor => exact ⟨tensor, rfl⟩
  | lazy layout value => exact ⟨_, flat_lazy layout value room⟩

/-- Only memory can keep a computed structure from being stored. -/
theorem flat_faults {s : Structure α} {fault : Fault} (h : s.flat = .error fault) :
    fault = .noRoom := by
  cases s with
  | stored tensor => cases h
  | lazy layout value =>
      by_cases room : layout.size < Word.room
      · rw [flat_lazy layout value room] at h
        cases h
      · rw [flat_lazy_noRoom layout value room] at h
        cases h
        rfl

theorem toList_indices (layout : Layout) : layout.indices.toList = layout.multiIndices := by
  rw [Layout.indices, Vector.toList_ofFn, List.ofFn_eq_map, Layout.multiIndices,
    ← List.map_coe_finRange_eq_range, List.map_map]
  rfl

/-- The other structure has the same layout and the same elements, and is read like this one. -/
structure LooksLike (s s' : Structure α) : Prop where
  layout_eq : s'.layout = s.layout
  elements_eq : s'.elements = s.elements
  bounded : s.Bounded → s'.Bounded

theorem looksLike_flat {s : Structure α} {t : Tensor α} (h : s.flat = .ok t) :
    s.LooksLike (.stored t) := by
  cases s with
  | stored tensor =>
      cases h
      exact ⟨rfl, rfl, id⟩
  | lazy layout value =>
      by_cases room : layout.size < Word.room
      · rw [flat_lazy layout value room] at h
        cases h
        have cells : (layout.indices.map value).toList = layout.multiIndices.map value := by
          rw [Vector.toList_map, toList_indices]
        exact ⟨rfl, (Tensor.toList_cells_compact layout _).trans cells,
          fun _ => Tensor.bounded_compact layout _⟩
      · rw [flat_lazy_noRoom layout value room] at h
        cases h

theorem shape_of_flat {s : Structure α} {t : Tensor α} (h : s.flat = .ok t) : t.shape = s.shape :=
  congrArg Layout.shape (looksLike_flat h).layout_eq

theorem LooksLike.copy {s : Structure α} {t : Tensor α} (h : s.LooksLike (.stored t)) :
    s.LooksLike (.stored t.copy) where
  layout_eq := h.layout_eq
  elements_eq := t.toList_cells_copy.trans h.elements_eq
  bounded _ := Tensor.bounded_compact t.layout t.cells

end RowMajor.Structure

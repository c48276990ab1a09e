import Mathlib
import RowMajor.Proofs.Layout.Accepted

/-! Exact contents of layouts. The strides and the size of a layout are the products that
they stand for, and there is no layout only where one of two products leaves the range.
Decoding writes any number in the base of the strides, also one that is no position: an
empty dimension has the strides of a dimension of size one. -/
namespace RowMajor.Layout

theorem getElem?_placeValues {shape : List Nat} {i : Nat} (h : i < shape.length) :
    (placeValues shape)[i]? = some (padded (shape.drop (i + 1))) := by
  induction shape generalizing i with
  | nil => exact absurd h (Nat.not_lt_zero i)
  | cons size rest ih =>
      cases i with
      | zero => rfl
      | succ i => exact ih (Nat.lt_of_succ_lt_succ h)

/-! Dimensions of size one in place of the empty ones -/

theorem product_map_max (shape : List Nat) : product (shape.map (max · 1)) = padded shape := by
  induction shape with
  | nil => rfl
  | cons size rest ih => rw [List.map_cons, product, padded, ih]

theorem padded_map_max (shape : List Nat) : padded (shape.map (max · 1)) = padded shape := by
  have pos : 0 < product (shape.map (max · 1)) := product_map_max shape ▸ padded_pos shape
  rw [padded_eq_product pos, product_map_max]

theorem placeValues_map_max (shape : List Nat) :
    placeValues (shape.map (max · 1)) = placeValues shape := by
  induction shape with
  | nil => rfl
  | cons size rest ih => rw [List.map_cons, placeValues, placeValues, padded_map_max, ih]

/-! Numbers in the base of the strides -/

/-- The number with these digits, where each counts for its stride. -/
def digitSum (digits strides : List Nat) : Nat :=
  (List.zipWith (· * ·) digits strides).sum

theorem digitSum_cons (digit stride : Nat) (digits strides : List Nat) :
    digitSum (digit :: digits) (stride :: strides) = digit * stride + digitSum digits strides :=
  List.sum_cons

theorem digitSum_placeValues {shape digits : List Nat}
    (h : InBounds (shape.map (max · 1)) digits) :
    digitSum digits (placeValues shape) = rowOffset (shape.map (max · 1)) digits := by
  induction shape generalizing digits with
  | nil =>
      cases h
      rfl
  | cons size rest ih =>
      cases h with
      | cons _ later =>
          rw [placeValues, digitSum_cons, ih later, List.map_cons, rowOffset, product_map_max]

/-- The indices are the digits of the number: each counts for its stride, and every index but
the first is below its size, where an empty dimension counts as one. -/
structure Expands (layout : Layout) (number : Nat) (index : List Nat) : Prop where
  length_eq : index.length = layout.rank
  sum_eq : digitSum index layout.strides = number
  below : InBounds (layout.shape.tail.map (max · 1)) index.tail

/-- A number has its digits whether or not it is a position, and no others. -/
theorem expands_iff {layout : Layout} (some : layout.shape ≠ []) {number : Nat}
    {index : List Nat} : layout.Expands number index ↔ index = layout.index number := by
  obtain ⟨first, rest, shape⟩ := List.exists_cons_of_ne_nil some
  have strides : layout.strides = padded rest :: placeValues rest := by
    rw [strides_eq_placeValues, shape, placeValues]
  have pos : 0 < padded rest := padded_pos rest
  rw [Layout.index, strides, decode]
  constructor
  · rintro ⟨length, sum, below⟩
    rw [rank, shape, List.length_cons] at length
    obtain ⟨digit, digits, rfl⟩ := List.exists_cons_of_length_eq_add_one length
    rw [shape, List.tail_cons, List.tail_cons] at below
    rw [strides, digitSum_cons, digitSum_placeValues below, Nat.add_comm, Nat.mul_comm] at sum
    -- All digits but the first are less together than one step of the first.
    have small : rowOffset (rest.map (max · 1)) digits < padded rest :=
      product_map_max rest ▸ rowOffset_lt below
    obtain ⟨quotient, remainder⟩ := (Nat.div_mod_unique pos).mpr ⟨sum, small⟩
    rw [quotient, remainder, ← placeValues_map_max, decode_rowOffset below]
  · rintro rfl
    have small : number % padded rest < product (rest.map (max · 1)) :=
      (product_map_max rest).symm ▸ Nat.mod_lt number pos
    obtain ⟨below, value⟩ := decode_inBounds small
    rw [placeValues_map_max] at below value
    refine ⟨?_, ?_, ?_⟩
    · rw [rank, shape, List.length_cons, List.length_cons, ← List.Forall₂.length_eq below,
        List.length_map]
    · rw [strides, digitSum_cons, digitSum_placeValues below, value, Nat.mul_comm,
        Nat.div_add_mod]
    · rwa [shape, List.tail_cons, List.tail_cons]

/-- What a layout of this shape holds and how it decodes, said of the shape alone. -/
structure IsExact (layout : Layout) (shape : List Nat) : Prop where
  shape_eq : layout.shape = shape
  length_eq : layout.strides.length = shape.length
  stride_eq : ∀ i < shape.length, layout.strides[i]? = some (padded (shape.drop (i + 1)))
  positive : ∀ stride ∈ layout.strides, 1 ≤ stride
  size_eq : layout.size = product shape
  decodes : shape ≠ [] → ∀ number index,
    layout.Expands number index ↔ index = layout.index number
  decodesInto : ∀ number, layout.indexInto number shape.length = .ok (layout.index number)

theorem isExact (layout : Layout) : layout.IsExact layout.shape where
  shape_eq := rfl
  length_eq := layout.length_strides
  stride_eq i h := by rw [strides_eq_placeValues, getElem?_placeValues h]
  positive := strides_eq_placeValues layout ▸ pos_of_mem_placeValues
  size_eq := layout.size_eq_product
  decodes some _ _ := expands_iff some
  decodesInto _ := if_pos layout.length_strides.symm

/-- There is a layout unless the strides or the sizes leave the range, and then the fault is
an overflow. The strides do so where the sizes after the first do, empty ones counted as one;
the sizes do so before the first empty one. -/
theorem ofShape_isExact (shape : List Nat) :
    (ofShape shape = .error (.overflow .multiply) ↔
      Word.bound ≤ padded shape.tail ∨ Word.bound ≤ product (leading shape)) ∧
    (∀ fault, ofShape shape = .error fault → fault = .overflow .multiply) ∧
    ∀ layout, ofShape shape = .ok layout → layout.IsExact shape := by
  refine ⟨?_, ?_, ?_⟩
  · rw [ofShape_eq_error_iff, and_iff_left rfl, accepted_iff, not_and_or, Nat.not_lt, Nat.not_lt]
  · intro fault failed
    exact (ofShape_eq_error_iff.mp failed).2
  · intro layout made
    rw [← shape_of_ofShape made]
    exact layout.isExact

/-- An empty dimension before a long one. -/
def emptyMiddle : Layout :=
  ⟨[3, 0, 4294967296], [4294967296, 4294967296, 1], 0, rfl, rfl⟩

/-- The empty dimension does not stop the strides, but it stops the count. The greatest word
has its digits, although there is no position at all. -/
theorem ofShape_isExact_emptyMiddle :
    ofShape [3, 0, 4294967296] = .ok emptyMiddle ∧ emptyMiddle.IsExact [3, 0, 4294967296] ∧
    emptyMiddle.Expands Word.top [4294967295, 0, 4294967295] ∧
    ofShape [0, 4294967296, 4294967296] = .error (.overflow .multiply) ∧
    ofShape [4294967296, 4294967296, 0] = .error (.overflow .multiply) :=
  have made : ofShape [3, 0, 4294967296] = .ok emptyMiddle := rfl
  have exact := (ofShape_isExact [3, 0, 4294967296]).2.2 emptyMiddle made
  ⟨made, exact, (exact.decodes (by decide) _ _).mpr rfl,
    (ofShape_isExact [0, 4294967296, 4294967296]).1.mpr (.inl (by decide)),
    (ofShape_isExact [4294967296, 4294967296, 0]).1.mpr (.inr (by decide))⟩

end RowMajor.Layout

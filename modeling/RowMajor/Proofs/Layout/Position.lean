import Mathlib
import RowMajor.Layout

/-! Multi-indices and the positions they stand for. A position is the number whose digits
are the indices, each in a base of its own; an empty dimension leaves no position and no
multi-index at all. -/
namespace RowMajor.Layout

/-- One index for each dimension, below its size. -/
def InBounds (shape index : List Nat) : Prop :=
  List.Forall₂ (fun size i => i < size) shape index

/-- The product of the sizes, where a size of zero counts as one. -/
def padded : List Nat → Nat
  | [] => 1
  | size :: rest => max size 1 * padded rest

/-- What one step in each dimension is worth. -/
def placeValues : List Nat → List Nat
  | [] => []
  | _ :: rest => padded rest :: placeValues rest

/-- The position of a multi-index, without any bound on the numbers. -/
def rowOffset : List Nat → List Nat → Nat
  | _ :: shape, i :: index => i * product shape + rowOffset shape index
  | _, _ => 0

theorem padded_pos (shape : List Nat) : 0 < padded shape := by
  induction shape with
  | nil => exact Nat.one_pos
  | cons size rest ih => exact Nat.mul_pos (by omega) ih

theorem padded_eq_product {shape : List Nat} (h : 0 < product shape) :
    padded shape = product shape := by
  induction shape with
  | nil => rfl
  | cons size rest ih =>
      have some : 0 < size := Nat.pos_of_mul_pos_right h
      rw [padded, product, ih (Nat.pos_of_mul_pos_left h), max_eq_left some]

theorem product_append (first last : List Nat) :
    product (first ++ last) = product first * product last := by
  induction first with
  | nil => exact (Nat.one_mul _).symm
  | cons size rest ih => rw [List.cons_append, product, product, ih, Nat.mul_assoc]

theorem padded_append (first last : List Nat) :
    padded (first ++ last) = padded first * padded last := by
  induction first with
  | nil => exact (Nat.one_mul _).symm
  | cons size rest ih => rw [List.cons_append, padded, padded, ih, Nat.mul_assoc]

theorem pos_of_mem_placeValues {shape : List Nat} : ∀ stride ∈ placeValues shape, 0 < stride := by
  induction shape with
  | nil => exact fun stride mem => absurd mem List.not_mem_nil
  | cons size rest ih =>
      intro stride mem
      rcases List.mem_cons.mp mem with rfl | later
      · exact padded_pos rest
      · exact ih stride later

theorem length_placeValues (shape : List Nat) : (placeValues shape).length = shape.length := by
  induction shape with
  | nil => rfl
  | cons size rest ih => exact congrArg Nat.succ ih

/-! What the two products of a layout come to, and when they stay in range -/

theorem rowStrides_eq_ok {shape strides : List Nat} :
    rowStrides shape = .ok strides ↔
      padded shape.tail < Word.bound ∧ strides = placeValues shape := by
  have one_lt : 1 < Word.bound := by decide
  induction shape generalizing strides with
  | nil => simp [rowStrides, placeValues, padded, one_lt, eq_comm]
  | cons first rest ih =>
      cases rest with
      | nil => simp [rowStrides, placeValues, padded, one_lt, eq_comm]
      | cons size rest =>
          have head : (placeValues (size :: rest)).headD 1 = padded rest := rfl
          have grows : padded rest ≤ padded (size :: rest) :=
            Nat.le_mul_of_pos_left _ (by omega)
          rw [List.tail_cons]
          constructor
          · intro h
            simp only [rowStrides, bind, Except.bind] at h
            split at h
            · cases h
            · rename_i inner found
              obtain ⟨_, rfl⟩ := ih.mp found
              split at h
              · cases h
              · rename_i stride value
                obtain ⟨small, rfl⟩ := Word.mul_eq_ok.mp value
                rw [head, Nat.mul_comm] at small
                cases h
                rw [head, Nat.mul_comm]
                exact ⟨small, rfl⟩
          · rintro ⟨small, rfl⟩
            have inner : rowStrides (size :: rest) = .ok (placeValues (size :: rest)) :=
              ih.mpr ⟨Nat.lt_of_le_of_lt grows small, rfl⟩
            have stride : Word.mul (padded rest) (max size 1) = .ok (padded (size :: rest)) :=
              Word.mul_eq_ok.mpr ⟨Nat.mul_comm (max size 1) (padded rest) ▸ small,
                Nat.mul_comm (max size 1) (padded rest)⟩
            simp only [rowStrides, inner, bind, Except.bind, head, stride]
            rfl

theorem strides_eq_placeValues (layout : Layout) : layout.strides = placeValues layout.shape :=
  (rowStrides_eq_ok.mp layout.strides_eq).2

theorem length_strides (layout : Layout) : layout.strides.length = layout.rank := by
  rw [strides_eq_placeValues, length_placeValues, rank]

theorem countFrom_lt {count n : Nat} {shape : List Nat} (h : countFrom count shape = .ok n)
    (small : count < Word.bound) : n < Word.bound := by
  induction shape generalizing count with
  | nil =>
      cases h
      exact small
  | cons size rest ih =>
      obtain ⟨bound, later⟩ := countFrom_cons_eq_ok.mp h
      exact ih later bound

theorem size_lt (layout : Layout) : layout.size < Word.bound :=
  countFrom_lt layout.size_eq (by decide)

/-- The count of a shape passes through the counts of its beginnings. -/
theorem countFrom_append {count n : Nat} {first last : List Nat}
    (h : countFrom count (first ++ last) = .ok n) :
    countFrom count first = .ok (count * product first) := by
  induction first generalizing count with
  | nil => exact congrArg Except.ok (Nat.mul_one count).symm
  | cons size rest ih =>
      obtain ⟨small, later⟩ := countFrom_cons_eq_ok.mp h
      rw [product, ← Nat.mul_assoc]
      exact countFrom_cons_eq_ok.mpr ⟨small, ih later⟩

theorem countFrom_of_padded {count : Nat} {shape : List Nat}
    (small : count * padded shape < Word.bound) :
    countFrom count shape = .ok (count * product shape) := by
  induction shape generalizing count with
  | nil => exact congrArg Except.ok (Nat.mul_one count).symm
  | cons size rest ih =>
      have le : count * size * padded rest ≤ count * padded (size :: rest) := by
        rw [padded, ← Nat.mul_assoc]
        exact Nat.mul_le_mul_right _ (Nat.mul_le_mul_left _ (Nat.le_max_left size 1))
      have step : count * size < Word.bound :=
        Nat.lt_of_le_of_lt (Nat.le_trans (Nat.le_mul_of_pos_right _ (padded_pos rest)) le) small
      rw [product, ← Nat.mul_assoc]
      exact countFrom_cons_eq_ok.mpr ⟨step, ih (Nat.lt_of_le_of_lt le small)⟩

theorem exists_ofShape {shape : List Nat} {n : Nat} (strides : padded shape.tail < Word.bound)
    (size : elementCount shape = .ok n) : ∃ layout, ofShape shape = .ok layout := by
  have first := rowStrides_eq_ok.mpr ⟨strides, rfl⟩
  unfold ofShape
  split
  · rename_i fault failed
    rw [first] at failed
    cases failed
  · split
    · rename_i fault failed
      rw [size] at failed
      cases failed
    · exact ⟨_, rfl⟩

theorem ofShape_self (layout : Layout) : ofShape layout.shape = .ok layout := by
  obtain ⟨found, h⟩ := exists_ofShape (rowStrides_eq_ok.mp layout.strides_eq).1 layout.size_eq
  rw [h, ext_shape (shape_of_ofShape h)]

theorem forStore_self {layout : Layout} (room : layout.size < Word.room) :
    forStore layout.shape = .ok layout := by
  rw [forStore, ofShape_self]
  simp only [bind, Except.bind, Word.requireRoom_eq_ok.mpr room]
  rfl

theorem forStore_eq_ok {shape : List Nat} {layout : Layout} (h : forStore shape = .ok layout) :
    layout.shape = shape ∧ layout.size < Word.room := by
  unfold forStore at h
  cases made : ofShape shape with
  | error fault =>
      rw [made] at h
      cases h
  | ok found =>
      rw [made] at h
      simp only [bind, Except.bind] at h
      split at h
      · cases h
      · rename_i room
        cases h
        exact ⟨shape_of_ofShape made, Word.requireRoom_eq_ok.mp room⟩

/-- A layout can be cut anywhere: both parts are layouts. -/
theorem exists_ofShape_append {layout : Layout} {first last : List Nat}
    (h : layout.shape = first ++ last) :
    (∃ outer, ofShape first = .ok outer) ∧ ∃ inner, ofShape last = .ok inner := by
  have strides := (rowStrides_eq_ok.mp layout.strides_eq).1
  have size := layout.size_eq
  rw [h] at strides
  rw [elementCount, h] at size
  cases first with
  | nil =>
      have whole := ofShape_self layout
      rw [h] at whole
      exact ⟨⟨_, ofShape_self ⟨[], [], 1, rfl, rfl⟩⟩, layout, whole⟩
  | cons front rest =>
      rw [List.cons_append, List.tail_cons, padded_append] at strides
      have outer : padded rest < Word.bound :=
        Nat.lt_of_le_of_lt (Nat.le_mul_of_pos_right _ (padded_pos last)) strides
      have inner : padded last < Word.bound :=
        Nat.lt_of_le_of_lt (Nat.le_mul_of_pos_left _ (padded_pos rest)) strides
      constructor
      · exact exists_ofShape outer (countFrom_append size)
      · refine exists_ofShape ?_ (countFrom_of_padded ((Nat.one_mul _).symm ▸ inner))
        cases last with
        | nil => exact inner
        | cons back last =>
            exact Nat.lt_of_le_of_lt (Nat.le_mul_of_pos_left _ (by omega)) inner

/-! Positions of multi-indices -/

theorem rowOffset_lt {shape index : List Nat} (h : InBounds shape index) :
    rowOffset shape index < product shape := by
  induction h with
  | nil => exact Nat.one_pos
  | @cons size i shape index below rest ih =>
      calc i * product shape + rowOffset shape index
          < i * product shape + product shape := Nat.add_lt_add_left ih _
        _ = (i + 1) * product shape := (Nat.succ_mul ..).symm
        _ ≤ size * product shape := Nat.mul_le_mul_right _ below

theorem offsetFrom_eq {offset : Nat} {shape index : List Nat} (h : InBounds shape index)
    (small : offset + rowOffset shape index < Word.bound) :
    offsetFrom offset shape (placeValues shape) index = .ok (offset + rowOffset shape index) := by
  induction h generalizing offset with
  | nil => rfl
  | @cons size i shape index below rest ih =>
      have stride : padded shape = product shape :=
        padded_eq_product (Nat.lt_of_le_of_lt (Nat.zero_le _) (rowOffset_lt rest))
      rw [rowOffset, ← Nat.add_assoc] at small ⊢
      have term : Word.mul i (padded shape) = .ok (i * product shape) :=
        Word.mul_eq_ok.mpr ⟨by rw [stride]; omega, by rw [stride]⟩
      have sum : Word.add offset (i * product shape) = .ok (offset + i * product shape) :=
        Word.add_eq_ok.mpr ⟨by omega, rfl⟩
      simp only [placeValues, offsetFrom, if_pos below, term, sum, bind, Except.bind]
      exact ih small

/-- In range nothing overflows, and the position lies within the layout. -/
theorem offset_eq {layout : Layout} {index : List Nat} (h : InBounds layout.shape index) :
    layout.offset index = .ok (rowOffset layout.shape index) := by
  have small := Nat.lt_trans (rowOffset_lt h) (layout.size_eq_product ▸ layout.size_lt)
  have found : offsetFrom 0 layout.shape (placeValues layout.shape) index =
      .ok (0 + rowOffset layout.shape index) := offsetFrom_eq h (by rwa [Nat.zero_add])
  rw [Nat.zero_add] at found
  have count : index.length = layout.rank := (List.Forall₂.length_eq h).symm
  rw [offset, if_pos count, strides_eq_placeValues, found]

theorem decode_rowOffset {shape index : List Nat} (h : InBounds shape index) :
    decode (placeValues shape) (rowOffset shape index) = index := by
  induction h with
  | nil => rfl
  | @cons size i shape index below rest ih =>
      have small := rowOffset_lt rest
      have pos : 0 < product shape := Nat.lt_of_le_of_lt (Nat.zero_le _) small
      rw [placeValues, rowOffset, decode, padded_eq_product pos, Nat.mul_comm,
        Nat.mul_add_div pos, Nat.div_eq_of_lt small, Nat.add_zero, Nat.mul_add_mod,
        Nat.mod_eq_of_lt small, ih]

theorem index_rowOffset {layout : Layout} {index : List Nat} (h : InBounds layout.shape index) :
    layout.index (rowOffset layout.shape index) = index := by
  rw [Layout.index, strides_eq_placeValues, decode_rowOffset h]

theorem decode_inBounds {shape : List Nat} {position : Nat} (h : position < product shape) :
    InBounds shape (decode (placeValues shape) position) ∧
      rowOffset shape (decode (placeValues shape) position) = position := by
  induction shape generalizing position with
  | nil => exact ⟨.nil, (Nat.lt_one_iff.mp h).symm⟩
  | cons size rest ih =>
      have pos : 0 < product rest :=
        Nat.pos_of_mul_pos_left (Nat.lt_of_le_of_lt (Nat.zero_le _) h)
      obtain ⟨later, value⟩ := ih (Nat.mod_lt position pos)
      rw [placeValues, decode, padded_eq_product pos]
      refine ⟨.cons (Nat.div_lt_of_lt_mul (Nat.mul_comm size _ ▸ h)) later, ?_⟩
      rw [rowOffset, value, Nat.mul_comm, Nat.div_add_mod]

theorem index_inBounds {layout : Layout} {position : Nat} (h : position < layout.size) :
    InBounds layout.shape (layout.index position) := by
  rw [Layout.index, strides_eq_placeValues]
  exact (decode_inBounds (layout.size_eq_product ▸ h)).1

theorem rowOffset_index {layout : Layout} {position : Nat} (h : position < layout.size) :
    rowOffset layout.shape (layout.index position) = position := by
  rw [Layout.index, strides_eq_placeValues]
  exact (decode_inBounds (layout.size_eq_product ▸ h)).2

/-- Positions are in the order of the multi-indices, read from the first index on. -/
theorem rowOffset_lt_rowOffset {shape a b : List Nat} (ha : InBounds shape a)
    (hb : InBounds shape b) : rowOffset shape a < rowOffset shape b ↔ a < b := by
  induction ha generalizing b with
  | nil =>
      cases hb
      simp [rowOffset]
  | @cons size i shape a below rest ih =>
      cases hb with
      | @cons _ j _ b below' rest' =>
          have small := rowOffset_lt rest
          have small' := rowOffset_lt rest'
          rw [rowOffset, rowOffset, List.cons_lt_cons_iff]
          rcases Nat.lt_trichotomy i j with before | rfl | after
          · have step : i * product shape + product shape ≤ j * product shape :=
              Nat.succ_mul i _ ▸ Nat.mul_le_mul_right _ before
            exact iff_of_true (by omega) (Or.inl before)
          · rw [Nat.add_lt_add_iff_left, ih rest']
            simp
          · have step : j * product shape + product shape ≤ i * product shape :=
              Nat.succ_mul j _ ▸ Nat.mul_le_mul_right _ after
            exact iff_of_false (by omega) (by omega)

/-- The position of the last indices counts from that of the first ones. -/
theorem rowOffset_append {outer inner b j : List Nat} (hb : InBounds outer b) :
    rowOffset (outer ++ inner) (b ++ j) =
      rowOffset outer b * product inner + rowOffset inner j := by
  induction hb with
  | nil => simp [rowOffset]
  | cons _ _ ih =>
      rw [List.cons_append, List.cons_append, rowOffset, rowOffset, ih, product_append,
        Nat.add_mul, Nat.mul_assoc, Nat.add_assoc]

theorem inBounds_append {outer inner b j : List Nat} (hb : InBounds outer b)
    (hj : InBounds inner j) : InBounds (outer ++ inner) (b ++ j) :=
  List.rel_append hb hj

end RowMajor.Layout

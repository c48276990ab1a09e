import Mathlib
import RowMajor.Proofs.Structure.Elements

/-! Comparing contents. Two tensors are compared cell by cell, other structures at the
multi-indices of a walk; the answer is the same either way. -/
namespace RowMajor.Structure
open Layout (InBounds rowOffset)
variable {α : Type}

/-- The shapes are equal, and at every multi-index the test holds of the two elements there. -/
structure AgreesWith (s other : Structure α) (test : α → α → Bool) : Prop where
  shape_eq : s.shape = other.shape
  read : ∀ index, InBounds s.shape index →
    ∃ x y, s.read index = .ok x ∧ other.read index = .ok y ∧ test x y = true

/-- Whether the test holds of all elements in the same positions. -/
def allPairs (s other : Structure α) (test : α → α → Bool) : Bool :=
  (s.elements.zip other.elements).all fun (x, y) => test x y

section Pairs
variable {s other : Structure α}

/-- From any place on, the walk tests the elements that are still to come. -/
theorem agreeFrom_eq (hs : s.Bounded) (ho : other.Bounded) (same : s.layout = other.layout)
    (test : α → α → Bool) {position count : Nat} (h : position + count = s.layout.size) :
    s.agreeFrom other test count ⟨s.layout, position⟩ =
      .ok (((s.elements.drop position).zip (other.elements.drop position)).all
        fun (x, y) => test x y) := by
  induction count generalizing position with
  | zero =>
      have past : s.elements.length ≤ position := by
        rw [length_elements]
        omega
      rw [List.drop_of_length_le past]
      rfl
  | succ count ih =>
      have before : position < s.layout.size := by omega
      have step : Cursor.next? ⟨s.layout, position⟩ =
          some (s.layout.index position, ⟨s.layout, position + 1⟩) :=
        Cursor.next?_eq_some_iff.mpr ⟨before, rfl, rfl⟩
      have inLeft : position < s.elements.length := s.length_elements ▸ before
      have inRight : position < other.elements.length := by
        rwa [length_elements, ← same]
      have readLeft := read_index hs (List.getElem?_eq_getElem inLeft)
      have readRight := read_index ho (List.getElem?_eq_getElem inRight)
      rw [← same] at readRight
      rw [List.drop_eq_getElem_cons inLeft, List.drop_eq_getElem_cons inRight,
        List.zip_cons_cons, List.all_cons, agreeFrom, step]
      simp only [readLeft, readRight, bind, Except.bind]
      cases test s.elements[position] other.elements[position] with
      | false => rfl
      | true => exact ih (by omega)

/-- Both ways of comparing test the same pairs. -/
theorem allEntries_eq (hs : s.Bounded) (ho : other.Bounded) (test : α → α → Bool) :
    s.allEntries other test =
      .ok (if s.shape = other.shape then s.allPairs other test else false) := by
  unfold allEntries
  split
  · rename_i same
    have walked := agreeFrom_eq hs ho (Layout.ext_shape same) test (Nat.zero_add s.layout.size)
    cases s with
    | lazy layout value => exact walked
    | stored a =>
        cases other with
        | lazy layout value => exact walked
        | stored b => rfl
  · rfl

theorem allPairs_eq_true_iff (hs : s.Bounded) (ho : other.Bounded) (same : s.shape = other.shape)
    (test : α → α → Bool) : s.allPairs other test = true ↔ s.AgreesWith other test := by
  rw [allPairs, List.all_eq_true]
  constructor
  · intro all
    refine ⟨same, fun index hi => ?_⟩
    obtain ⟨x, hx, readLeft⟩ := read_eq hs hi
    obtain ⟨y, hy, readRight⟩ := read_eq ho (same ▸ hi)
    rw [← same] at hy
    have pair : (x, y) ∈ s.elements.zip other.elements :=
      List.mem_of_getElem? (List.getElem?_zip_eq_some.mpr ⟨hx, hy⟩)
    exact ⟨x, y, readLeft, readRight, all _ pair⟩
  · intro agrees pair member
    obtain ⟨position, found⟩ := List.mem_iff_getElem?.mp member
    obtain ⟨hx, hy⟩ := List.getElem?_zip_eq_some.mp found
    have before : position < s.layout.size := by
      rw [← length_elements]
      exact (List.getElem?_eq_some_iff.mp hx).1
    have left := read_index hs hx
    have right := read_index ho hy
    rw [← Layout.ext_shape same] at right
    obtain ⟨x, y, readLeft, readRight, holds⟩ := agrees.read _ (Layout.index_inBounds before)
    cases left.symm.trans readLeft
    cases right.symm.trans readRight
    exact holds

theorem allEntries_spec (hs : s.Bounded) (ho : other.Bounded) (test : α → α → Bool) :
    ∃ answer, s.allEntries other test = .ok answer ∧
      (answer = true ↔ s.AgreesWith other test) := by
  refine ⟨_, allEntries_eq hs ho test, ?_⟩
  split
  · rename_i same
    exact allPairs_eq_true_iff hs ho same test
  · rename_i different
    exact iff_of_false Bool.false_ne_true fun agrees => different agrees.shape_eq

end Pairs

/-- What may be put in the place of a structure: the tensor it is stored as, or a copy of that. -/
inductive StandIn (s : Structure α) : Structure α → Prop
  | itself : s.StandIn s
  | stored {t : Tensor α} : s.flat = .ok t → s.StandIn (.stored t)
  | copied {t : Tensor α} : s.flat = .ok t → s.StandIn (.stored t.copy)

theorem StandIn.looksLike {s s' : Structure α} (h : s.StandIn s') : s.LooksLike s' := by
  cases h with
  | itself => exact ⟨rfl, rfl, id⟩
  | stored found => exact looksLike_flat found
  | copied found => exact (looksLike_flat found).copy

theorem allEntries_congr {s s' other other' : Structure α} (hs : s.Bounded) (ho : other.Bounded)
    (left : s.LooksLike s') (right : other.LooksLike other') (test : α → α → Bool) :
    s'.allEntries other' test = s.allEntries other test := by
  rw [allEntries_eq hs ho, allEntries_eq (left.bounded hs) (right.bounded ho), allPairs, allPairs,
    left.elements_eq, right.elements_eq, shape, shape, left.layout_eq, right.layout_eq]
  rfl

theorem all_zip_beq [BEq α] {xs ys : List α} (h : xs.length = ys.length) :
    ((xs.zip ys).all fun (x, y) => x == y) = (xs == ys) := by
  induction xs generalizing ys with
  | nil =>
      cases ys with
      | nil => rfl
      | cons y ys => cases h
  | cons x xs ih =>
      cases ys with
      | nil => cases h
      | cons y ys =>
          rw [List.zip_cons_cons, List.all_cons, ih (Nat.succ.inj h), List.cons_beq_cons]

theorem beq_eq [BEq α] {a b : Tensor α} (same : a.layout = b.layout) :
    a.beq b = (a.cells.toList == b.cells.toList) := by
  rw [Tensor.beq, dif_pos same]
  obtain ⟨layout, store, start, fits⟩ := a
  obtain ⟨_, store', start', fits'⟩ := b
  cases same
  exact Vector.toList_beq_toList.symm

/-- The contents of two tensors are equal if the tensors are. -/
theorem contentEquals_stored [BEq α] (a b : Tensor α) :
    contentEquals (.stored a) (.stored b) = .ok (a.beq b) := by
  unfold contentEquals allEntries
  by_cases same : a.shape = b.shape
  · have layouts : a.layout = b.layout := Layout.ext_shape same
    have lengths : a.cells.toList.length = b.cells.toList.length := by
      rw [Vector.length_toList, Vector.length_toList, layouts]
    rw [beq_eq layouts, ← all_zip_beq lengths]
    exact if_pos same
  · have different : a.layout ≠ b.layout := fun layouts => same (congrArg Layout.shape layouts)
    rw [Tensor.beq, dif_neg different]
    exact if_neg same

theorem flat_settles (s : Structure α) :
    (∃ t, s.flat = .ok t) ∨ s.flat = .error .noRoom ∧ Word.room ≤ s.layout.size := by
  by_cases room : s.layout.size < Word.room
  · exact Or.inl (exists_flat room)
  · rcases found : s.flat with fault | t
    · exact Or.inr ⟨congrArg Except.error (flat_faults found), Nat.le_of_not_lt room⟩
    · exact Or.inl ⟨t, rfl⟩

/-- Comparing the contents of two structures is comparing what they read, whatever their kinds
and whatever equality there is of elements. -/
structure ComparesContents (s other : Structure α) : Prop where
  equals : ∀ [BEq α], ∃ answer, s.contentEquals other = .ok answer ∧
    (answer = true ↔ s.AgreesWith other (· == ·))
  close : ∀ [Scalar α] (tolerance : α), ∃ answer, s.contentClose other tolerance = .ok answer ∧
    (answer = true ↔
      s.AgreesWith other fun x y => Scalar.less (Scalar.abs (x - y)) tolerance)
  equals_standIn : ∀ [BEq α] {s' other' : Structure α}, s.StandIn s' → other.StandIn other' →
    s'.contentEquals other' = s.contentEquals other
  close_standIn : ∀ [Scalar α] (tolerance : α) {s' other' : Structure α},
    s.StandIn s' → other.StandIn other' →
      s'.contentClose other' tolerance = s.contentClose other tolerance
  /-- Only what no memory has room for cannot be stored. -/
  flat : ∀ operand, operand = s ∨ operand = other →
    (∃ t, operand.flat = .ok t) ∨ operand.flat = .error .noRoom ∧ Word.room ≤ operand.layout.size
  tensors : ∀ [BEq α] {a b : Tensor α}, s = .stored a → other = .stored b →
    s.contentEquals other = .ok (a.beq b)

theorem contents_areCompared {s other : Structure α} (hs : s.Bounded) (ho : other.Bounded) :
    s.ComparesContents other where
  equals := allEntries_spec hs ho _
  close _ := allEntries_spec hs ho _
  equals_standIn left right := allEntries_congr hs ho left.looksLike right.looksLike _
  close_standIn _ _ _ left right := allEntries_congr hs ho left.looksLike right.looksLike _
  flat operand _ := operand.flat_settles
  tensors left right := by
    rw [left, right]
    exact contentEquals_stored _ _

def tableLayout : Layout :=
  ⟨[2, 3], [3, 1], 6, by decide, by decide⟩

/-- A table of sums, computed and stored. -/
def sumTable : Structure Nat :=
  .lazy tableLayout List.sum

def storedTable : Structure Nat :=
  .stored ⟨tableLayout, #[9, 0, 1, 2, 1, 2, 3, 9], 1, by decide⟩

theorem contents_areCompared_tables : sumTable.Bounded ∧ storedTable.Bounded ∧
    sumTable.ComparesContents storedTable ∧ sumTable.contentEquals storedTable = .ok true :=
  have bounded : storedTable.Bounded := by
    show 8 < Word.bound
    decide
  ⟨trivial, bounded, contents_areCompared trivial bounded, by decide⟩

end RowMajor.Structure

import Mathlib
import RowMajor.Proofs.Layout.Position

/-! Which shapes have a layout. Two products must stay in range: that of the strides, for
which an empty dimension counts as one, and that of the sizes, which is taken from the first
dimension on and stays in range from the first empty dimension on. -/
namespace RowMajor
open Layout (product)

theorem Word.mul_eq_error {a b : Nat} {fault : Fault} (h : Word.mul a b = .error fault) :
    fault = .overflow .multiply := by
  unfold Word.mul at h
  split at h
  · cases h
  · exact (Except.error.inj h).symm

theorem Word.requireRoom_eq_error {count : Nat} {fault : Fault} :
    Word.requireRoom count = .error fault ↔ Word.room ≤ count ∧ fault = .noRoom := by
  unfold Word.requireRoom
  split
  · rename_i small
    simp [small]
  · rename_i large
    simp [Nat.not_lt.mp large, eq_comm]

namespace Layout

/-- The sizes before the first empty dimension. -/
def leading (shape : List Nat) : List Nat :=
  shape.takeWhile (· ≠ 0)

@[simp] theorem leading_nil : leading [] = [] := rfl

@[simp] theorem leading_zero (rest : List Nat) : leading (0 :: rest) = [] := rfl

theorem leading_cons {size : Nat} (nonzero : size ≠ 0) (rest : List Nat) :
    leading (size :: rest) = size :: leading rest :=
  List.takeWhile_cons_of_pos (by simpa using nonzero)

theorem leading_of_full {shape : List Nat} (full : 0 ∉ shape) : leading shape = shape :=
  List.takeWhile_eq_self_iff.mpr fun size mem => by
    simpa using ne_of_mem_of_not_mem mem full

/-- What follows an empty dimension does not count. -/
theorem leading_append_of_mem {first : List Nat} (empty : 0 ∈ first) (last : List Nat) :
    leading (first ++ last) = leading first := by
  refine List.takeWhile_append.trans (if_neg fun same => ?_)
  have whole : first.takeWhile (· ≠ 0) = first :=
    (List.takeWhile_prefix _).eq_of_length same
  simpa using List.takeWhile_eq_self_iff.mp whole 0 empty

theorem leading_append {first : List Nat} (full : 0 ∉ first) (last : List Nat) :
    leading (first ++ last) = first ++ leading last :=
  List.takeWhile_append_of_pos fun size mem => by
    simpa using ne_of_mem_of_not_mem mem full

theorem product_leading_append (first last : List Nat) :
    product (leading (first ++ last)) =
      product (leading first) * if 0 ∈ first then 1 else product (leading last) := by
  split
  · rename_i empty
    rw [leading_append_of_mem empty, Nat.mul_one]
  · rename_i full
    rw [leading_append full, leading_of_full full, product_append]

theorem product_leading_pos (shape : List Nat) : 0 < product (leading shape) := by
  induction shape with
  | nil => exact Nat.one_pos
  | cons size rest ih =>
      rcases Nat.eq_zero_or_pos size with rfl | pos
      · exact Nat.one_pos
      · rw [leading_cons (Nat.ne_of_gt pos), product]
        exact Nat.mul_pos pos ih

theorem padded_single (n : Nat) : padded [n] = max n 1 := by
  simp [padded]

theorem padded_pair (n m : Nat) : padded [n, m] = max n 1 * max m 1 := by
  simp [padded]

theorem product_leading_single (n : Nat) : product (leading [n]) = max n 1 := by
  rcases Nat.eq_zero_or_pos n with rfl | pos
  · rfl
  · rw [leading_cons (Nat.ne_of_gt pos), max_eq_left pos]
    simp [product]

theorem product_leading_pair (n m : Nat) :
    product (leading [n, m]) = if n = 0 then 1 else n * max m 1 := by
  split
  · rename_i noRows
    rw [noRows]
    rfl
  · rename_i rows
    rw [leading_cons rows, product, product_leading_single]

theorem exists_countFrom_iff {count : Nat} {shape : List Nat} (small : count < Word.bound) :
    (∃ n, countFrom count shape = .ok n) ↔ count * product (leading shape) < Word.bound := by
  induction shape generalizing count with
  | nil => exact iff_of_true ⟨count, rfl⟩ ((Nat.mul_one count).symm ▸ small)
  | cons size rest ih =>
      simp only [countFrom_cons_eq_ok, exists_and_left]
      rcases Nat.eq_zero_or_pos size with rfl | pos
      · -- The count stays zero, whatever comes after.
        have still : countFrom 0 rest = .ok (0 * product rest) :=
          countFrom_of_padded (by rw [Nat.zero_mul]; decide)
        rw [Nat.mul_zero, leading_zero, product, Nat.mul_one]
        exact iff_of_true ⟨by decide, _, still⟩ small
      · rw [leading_cons (Nat.ne_of_gt pos), product, ← Nat.mul_assoc]
        constructor
        · rintro ⟨fits, counted⟩
          exact (ih fits).mp counted
        · intro total
          have fits : count * size < Word.bound :=
            Nat.lt_of_le_of_lt (Nat.le_mul_of_pos_right _ (product_leading_pos rest)) total
          exact ⟨fits, (ih fits).mpr total⟩

/-- There is a layout of this shape. -/
def Accepted (shape : List Nat) : Prop :=
  ∃ layout, ofShape shape = .ok layout

theorem accepted_iff {shape : List Nat} :
    Accepted shape ↔
      padded shape.tail < Word.bound ∧ product (leading shape) < Word.bound := by
  have count : (∃ n, elementCount shape = .ok n) ↔ 1 * product (leading shape) < Word.bound :=
    exists_countFrom_iff (by decide)
  rw [Nat.one_mul] at count
  rw [← count]
  constructor
  · rintro ⟨layout, made⟩
    obtain rfl := shape_of_ofShape made
    exact ⟨(rowStrides_eq_ok.mp layout.strides_eq).1, layout.size, layout.size_eq⟩
  · rintro ⟨strides, n, size⟩
    exact exists_ofShape strides size

/-- Rows and columns of a matrix can be exchanged. -/
theorem accepted_pair_iff {n m : Nat} : Accepted [n, m] ↔ padded [n, m] < Word.bound := by
  rw [accepted_iff, List.tail_cons, padded_single, padded_pair, product_leading_pair]
  rcases Nat.eq_zero_or_pos n with rfl | rows
  · rw [if_pos rfl, max_eq_right (Nat.zero_le 1), Nat.one_mul]
    exact and_iff_left (by decide)
  · rw [if_neg (Nat.ne_of_gt rows), max_eq_left (show 1 ≤ n from rows)]
    exact and_iff_right_of_imp fun small =>
      Nat.lt_of_le_of_lt (Nat.le_mul_of_pos_left _ rows) small

theorem Accepted.sides_lt {n m : Nat} (h : Accepted [n, m]) :
    n < Word.bound ∧ m < Word.bound := by
  rw [accepted_pair_iff, padded_pair] at h
  have rows : n ≤ max n 1 * max m 1 :=
    Nat.le_trans (Nat.le_max_left n 1) (Nat.le_mul_of_pos_right _ (by omega))
  have cols : m ≤ max n 1 * max m 1 :=
    Nat.le_trans (Nat.le_max_left m 1) (Nat.le_mul_of_pos_left _ (by omega))
  exact ⟨Nat.lt_of_le_of_lt rows h, Nat.lt_of_le_of_lt cols h⟩

theorem accepted_pair {n m : Nat} (rows : n < Word.bound) (cols : m < Word.bound)
    (small : n * m < Word.bound) : Accepted [n, m] := by
  have one_lt : 1 < Word.bound := by decide
  rw [accepted_pair_iff, padded_pair]
  rcases Nat.eq_zero_or_pos n with rfl | row
  · rw [max_eq_right (Nat.zero_le 1), Nat.one_mul]
    exact max_lt cols one_lt
  · rcases Nat.eq_zero_or_pos m with rfl | col
    · rw [max_eq_right (Nat.zero_le 1), Nat.mul_one]
      exact max_lt rows one_lt
    · rwa [max_eq_left (show 1 ≤ n from row), max_eq_left (show 1 ≤ m from col)]

theorem padded_tail_append_le (first : List Nat) {last last' : List Nat}
    (whole : padded last' ≤ padded last) (tail : padded last'.tail ≤ padded last.tail) :
    padded (first ++ last').tail ≤ padded (first ++ last).tail := by
  cases first with
  | nil => exact tail
  | cons size rest =>
      rw [List.cons_append, List.cons_append, List.tail_cons, List.tail_cons, padded_append,
        padded_append]
      exact Nat.mul_le_mul_left _ whole

/-- The last dimensions can be replaced where the strides do not grow and the sizes that count
stay in range. -/
theorem Accepted.append_iff {first last last' : List Nat} (h : Accepted (first ++ last))
    (whole : padded last' ≤ padded last) (tail : padded last'.tail ≤ padded last.tail) :
    Accepted (first ++ last') ↔
      (0 ∉ first → product first * product (leading last') < Word.bound) := by
  obtain ⟨strides, size⟩ := accepted_iff.mp h
  have strides' := Nat.lt_of_le_of_lt (padded_tail_append_le first whole tail) strides
  rw [accepted_iff, and_iff_right strides', product_leading_append]
  rw [product_leading_append] at size
  split
  · rename_i empty
    rw [if_pos empty] at size
    exact iff_of_true size (absurd empty)
  · rename_i full
    rw [leading_of_full full]
    exact ⟨fun small _ => small, fun small => small full⟩

/-! Shapes without a layout -/

theorem rowStrides_eq_error {shape : List Nat} {fault : Fault}
    (h : rowStrides shape = .error fault) : fault = .overflow .multiply := by
  induction shape with
  | nil => cases h
  | cons first rest ih =>
      cases rest with
      | nil => cases h
      | cons size rest =>
          simp only [rowStrides, bind, Except.bind] at h
          split at h
          · rename_i failed
            cases h
            exact ih failed
          · split at h
            · rename_i failed
              cases h
              exact Word.mul_eq_error failed
            · cases h

theorem countFrom_eq_error {count : Nat} {shape : List Nat} {fault : Fault}
    (h : countFrom count shape = .error fault) : fault = .overflow .multiply := by
  induction shape generalizing count with
  | nil => cases h
  | cons size rest ih =>
      simp only [countFrom, bind, Except.bind] at h
      split at h
      · rename_i failed
        cases h
        exact Word.mul_eq_error failed
      · exact ih h

theorem ofShape_overflows {shape : List Nat} (h : ¬ Accepted shape) :
    ofShape shape = .error (.overflow .multiply) := by
  cases made : ofShape shape with
  | ok layout => exact absurd ⟨layout, made⟩ h
  | error fault =>
      unfold ofShape at made
      split at made
      · rename_i failed
        cases made
        rw [rowStrides_eq_error failed]
      · split at made
        · rename_i failed
          cases made
          rw [countFrom_eq_error failed]
        · cases made

theorem ofShape_eq_error_iff {shape : List Nat} {fault : Fault} :
    ofShape shape = .error fault ↔ ¬ Accepted shape ∧ fault = .overflow .multiply := by
  constructor
  · intro failed
    have refused : ¬ Accepted shape := by
      rintro ⟨layout, made⟩
      cases failed.symm.trans made
    exact ⟨refused, Except.error.inj (failed.symm.trans (ofShape_overflows refused))⟩
  · rintro ⟨refused, rfl⟩
    exact ofShape_overflows refused

theorem forStore_eq_error_iff {shape : List Nat} {fault : Fault} :
    forStore shape = .error fault ↔ ¬ Accepted shape ∧ fault = .overflow .multiply ∨
      Accepted shape ∧ Word.room ≤ product shape ∧ fault = .noRoom := by
  by_cases accepted : Accepted shape
  · rw [or_iff_right (fun refused => refused.1 accepted), and_iff_right accepted]
    obtain ⟨layout, made⟩ := accepted
    rw [← shape_of_ofShape made, ← layout.size_eq_product, ← Word.requireRoom_eq_error, forStore,
      shape_of_ofShape made, made]
    simp only [bind, Except.bind]
    cases Word.requireRoom layout.size <;> simp [pure, Except.pure]
  · rw [forStore, ofShape_overflows accepted]
    simp [accepted, bind, Except.bind, eq_comm]

end Layout
end RowMajor

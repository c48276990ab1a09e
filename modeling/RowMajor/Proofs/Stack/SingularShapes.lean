import Mathlib
import RowMajor.Proofs.Layout.Accepted
import RowMajor.Proofs.Stack.Independent

/-! When the singular factors of a stack have layouts. The left factors and the weights have
one wherever the stack has. The right factors of matrices without rows are counted past their
columns before the count comes to the empty dimension, so that they can leave the range
although they have no elements. -/
namespace RowMajor.Stack
open Layout (Accepted product padded leading)
open Tensor (CanMake)
variable {β γ : Type} {n m : Nat} {stack : List Nat}

/-- The operation ends in this fault, whatever is in the log. -/
def Faults (operation : StackM β) (fault : Fault) : Prop :=
  ∀ log, ∃ later, operation.run.run.run log = (.error fault, later)

namespace Faults

theorem create {made : Except Fault β} {fault : Fault} (h : made = .error fault) :
    Faults (Stack.create made) fault := by
  subst h
  exact fun log => ⟨log, rfl⟩

theorem bind {first : StackM β} {rest : β → StackM γ} {fault : Fault} (h : Faults first fault) :
    Faults (first >>= rest) fault := by
  intro log
  obtain ⟨later, here⟩ := h log
  exact ⟨later, by rw [run_bind, here]⟩

/-- A first part whose value is known. -/
theorem step {first : StackM β} {rest : β → StackM γ} {value : β} {fault : Fault}
    (h : Gives first (.ok value)) (next : Faults (rest value) fault) :
    Faults (first >>= rest) fault := by
  intro log
  obtain ⟨middle, here⟩ := h log
  obtain ⟨later, there⟩ := next middle
  refine ⟨later, ?_⟩
  rw [run_bind, here]
  exact there

end Faults

/-! The three shapes -/

/-- The matrices have no rows, but there are too many columns in all to be counted. -/
def ColumnsOverflow (stack : List Nat) (n m : Nat) : Prop :=
  n = 0 ∧ 0 ∉ stack ∧ Word.bound ≤ product stack * m

theorem leading_lt (h : Accepted (stack ++ [n, m])) (full : 0 ∉ stack) :
    product stack * product (leading [n, m]) < Word.bound := by
  obtain ⟨_, size⟩ := Layout.accepted_iff.mp h
  rwa [Layout.product_leading_append, if_neg full, Layout.leading_of_full full] at size

theorem accepted_left (h : Accepted (stack ++ [n, m])) : Accepted (stack ++ [n, min n m]) := by
  have cols : max (min n m) 1 ≤ max m 1 := by omega
  refine (h.append_iff ?_ ?_).mpr fun full => ?_
  · rw [Layout.padded_pair, Layout.padded_pair]
    exact Nat.mul_le_mul_left _ cols
  · rw [List.tail_cons, List.tail_cons, Layout.padded_single, Layout.padded_single]
    exact cols
  · refine Nat.lt_of_le_of_lt (Nat.mul_le_mul_left _ ?_) (leading_lt h full)
    rw [Layout.product_leading_pair, Layout.product_leading_pair]
    split
    · exact Nat.le_refl 1
    · exact Nat.mul_le_mul_left _ cols

theorem accepted_weights (h : Accepted (stack ++ [n, m])) : Accepted (stack ++ [min n m]) := by
  refine (h.append_iff ?_ ?_).mpr fun full => ?_
  · rw [Layout.padded_pair, Layout.padded_single]
    exact Nat.le_trans (by omega) (Nat.le_mul_of_pos_right (max n 1) (by omega))
  · exact Layout.padded_pos [m]
  · refine Nat.lt_of_le_of_lt (Nat.mul_le_mul_left _ ?_) (leading_lt h full)
    rw [Layout.product_leading_pair, Layout.product_leading_single]
    split
    · omega
    · exact Nat.le_trans (by omega) (Nat.le_mul_of_pos_right n (by omega))

theorem accepted_right_iff (h : Accepted (stack ++ [n, m])) :
    Accepted (stack ++ [m, min n m]) ↔ ¬ ColumnsOverflow stack n m := by
  have rows : max (min n m) 1 ≤ max n 1 := by omega
  have cols : max (min n m) 1 ≤ max m 1 := by omega
  rw [h.append_iff]
  · by_cases none : n = 0
    · have counted : product (leading [m, min n m]) = max m 1 := by
        rw [Layout.product_leading_pair, none, Nat.zero_min, Nat.max_eq_right (Nat.zero_le 1)]
        split <;> omega
      rw [ColumnsOverflow, and_iff_right none, not_and, counted]
      refine forall_congr' fun full => ?_
      have small := leading_lt h full
      rw [Layout.product_leading_pair, if_pos none, Nat.mul_one] at small
      rcases Nat.eq_zero_or_pos m with rfl | some
      · exact iff_of_true (by simpa using small) (by rw [Nat.mul_zero]; decide)
      · rw [max_eq_left some, Nat.not_le]
    · refine iff_of_true (fun full => ?_) fun overflow => none overflow.1
      refine Nat.lt_of_le_of_lt (Nat.mul_le_mul_left _ ?_) (leading_lt h full)
      rw [Layout.product_leading_pair, Layout.product_leading_pair, if_neg none]
      split
      · exact Nat.one_le_iff_ne_zero.mpr (Nat.mul_ne_zero none (by omega))
      · rename_i some
        calc m * max (min n m) 1 ≤ m * n := Nat.mul_le_mul_left m (by omega)
          _ = n * max m 1 := by rw [max_eq_left (by omega), Nat.mul_comm]
  · rw [Layout.padded_pair, Layout.padded_pair, Nat.mul_comm (max n 1)]
    exact Nat.mul_le_mul_left _ rows
  · rw [List.tail_cons, List.tail_cons, Layout.padded_single, Layout.padded_single]
    exact cols

/-! Stacks that are to be written -/

section Written
variable {α : Type}

theorem filled_eq_error {shape : List Nat} {fault : Fault}
    (h : Layout.forStore shape = .error fault) (value : α) :
    Tensor.filled shape value = .error fault := by
  rw [Tensor.filled, h]
  rfl

theorem filled_noRoom {shape : List Nat} (h : Accepted shape) (large : Word.room ≤ product shape)
    (value : α) : Tensor.filled shape value = .error .noRoom :=
  filled_eq_error (Layout.forStore_eq_error_iff.mpr (.inr ⟨h, large, rfl⟩)) value

theorem canMake_of_accepted {shape : List Nat} (h : Accepted shape)
    (small : product shape < Word.room) : CanMake shape := by
  obtain ⟨layout, made⟩ := h
  have same := Layout.shape_of_ofShape made
  rw [← same] at small ⊢
  exact Tensor.canMake_of_layout (layout.size_eq_product ▸ small)

theorem accepted_shape {a : Tensor α} (shape : a.shape = stack ++ [n, m]) :
    Accepted (stack ++ [n, m]) :=
  shape ▸ ⟨a.layout, Layout.ofShape_self a.layout⟩

end Written

section Call
variable {α σ : Type} [Scalar α] {a : Tensor α} (shape : a.shape = stack ++ [n, m])
include shape

/-- Nothing has been written yet when the factors cannot be made. -/
theorem singular_faults {fault : Fault}
    (h : (do
      discard (Tensor.filled (stack ++ [n, min n m]) (0 : α))
      discard (Tensor.filled (stack ++ [min n m]) (0 : α))
      discard (Tensor.filled (stack ++ [m, min n m]) (0 : α))) = Except.error fault)
    (source : Source σ α) (state : σ) (limits : PowerLimits α) :
    Faults (singularWith source state limits a) fault := by
  have dims : matrixDims a.shape = .ok (n, m) := shape ▸ matrixDims_eq stack n m
  have outer : stackDims a.shape = stack := shape ▸ stackDims_eq stack n m
  refine .step (.lift dims) ?_
  simp only [outer, singularShapes]
  cases left : Tensor.filled (stack ++ [n, min n m]) (0 : α) with
  | error found =>
      rw [left] at h
      cases h
      exact .bind (.create rfl)
  | ok u =>
      refine .step (.create rfl) ?_
      cases weights : Tensor.filled (stack ++ [min n m]) (0 : α) with
      | error found =>
          rw [left, weights] at h
          cases h
          exact .bind (.create rfl)
      | ok s =>
          refine .step (.create rfl) ?_
          cases right : Tensor.filled (stack ++ [m, min n m]) (0 : α) with
          | error found =>
              rw [left, weights, right] at h
              cases h
              exact .bind (.create rfl)
          | ok v =>
              rw [left, weights, right] at h
              cases h

theorem singular_overflows (overflow : ColumnsOverflow stack n m) (source : Source σ α)
    (state : σ) (limits : PowerLimits α) :
    Faults (singularWith source state limits a) (.overflow .multiply) := by
  have given := accepted_shape shape
  have none : min n m = 0 := by rw [overflow.1, Nat.zero_min]
  have leftRoom := canMake_of_accepted (accepted_left given)
    (by simp [Layout.product_append, product, none]; decide)
  have weightRoom := canMake_of_accepted (accepted_weights given)
    (by simp [Layout.product_append, product, none]; decide)
  obtain ⟨u, madeU, _⟩ := Tensor.exists_filled leftRoom (0 : α)
  obtain ⟨s, madeS, _⟩ := Tensor.exists_filled weightRoom (0 : α)
  have right : ¬ Accepted (stack ++ [m, min n m]) :=
    fun right => (accepted_right_iff given).mp right overflow
  have failed := filled_eq_error (Layout.forStore_eq_error_iff.mpr (.inl ⟨right, rfl⟩)) (0 : α)
  exact singular_faults shape (by rw [madeU, madeS, failed]; rfl) source state limits

/-- One of the three has as many elements as the stack itself. -/
theorem singular_noRoom (counted : ¬ ColumnsOverflow stack n m) (large : Word.room ≤ a.size)
    (source : Source σ α) (state : σ) (limits : PowerLimits α) :
    Faults (singularWith source state limits a) .noRoom := by
  have given := accepted_shape shape
  have right := (accepted_right_iff given).mpr counted
  refine singular_faults shape ?_ source state limits
  rw [Tensor.size, a.size_eq_product, shape, Layout.product_append] at large
  by_cases leftSmall : product (stack ++ [n, min n m]) < Word.room
  · obtain ⟨u, madeU, _⟩ :=
      Tensor.exists_filled (canMake_of_accepted (accepted_left given) leftSmall) (0 : α)
    by_cases weightSmall : product (stack ++ [min n m]) < Word.room
    · obtain ⟨s, madeS, _⟩ :=
        Tensor.exists_filled (canMake_of_accepted (accepted_weights given) weightSmall) (0 : α)
      have rightLarge : Word.room ≤ product (stack ++ [m, min n m]) := by
        rw [Layout.product_append] at leftSmall ⊢
        simp only [product, Nat.mul_one] at large leftSmall ⊢
        rcases Nat.le_total n m with wide | tall
        · rwa [min_eq_left wide, Nat.mul_comm m]
        · rw [min_eq_right tall] at leftSmall
          exact absurd leftSmall (Nat.not_lt.mpr large)
      rw [madeU, madeS, filled_noRoom right rightLarge]
      rfl
    · rw [madeU, filled_noRoom (accepted_weights given) (Nat.not_lt.mp weightSmall)]
      rfl
  · rw [filled_noRoom (accepted_left given) (Nat.not_lt.mp leftSmall)]
    rfl

theorem singular_gives (counted : ¬ ColumnsOverflow stack n m) (room : a.size < Word.room)
    (source : Source σ α) (state : σ) (limits : PowerLimits α) :
    ∃ result, Gives (singularWith source state limits a) result := by
  have given := accepted_shape shape
  obtain ⟨left, madeLeft⟩ := accepted_left given
  obtain ⟨weights, madeWeights⟩ := accepted_weights given
  obtain ⟨right, madeRight⟩ := (accepted_right_iff given).mpr counted
  obtain ⟨leftRoom, weightRoom, rightRoom⟩ := canMake_factors shape room
    (Layout.shape_of_ofShape madeLeft) (Layout.shape_of_ofShape madeWeights)
    (Layout.shape_of_ofShape madeRight)
  obtain ⟨matrices, h⟩ := Tensor.exists_isStack shape
  have sides : matrices ≠ [] → n < Word.room ∧ m < Word.room := by
    intro some
    have count := List.length_pos_of_ne_nil some
    obtain ⟨b, hb, _⟩ := h.exists_index count
    refine sides_lt hb (fun none => absurd count ?_) leftRoom rightRoom
    have empty : product [n, m] = 0 := by
      simp only [product, Nat.mul_one, Nat.mul_eq_zero]
      omega
    rw [h.length_eq, pieceCount, if_pos empty]
    exact Nat.lt_irrefl 0
  have realized : Realizes _ (singularWith source state limits a)
      (matrices.mapM (Linear.decomposition source limits state)) :=
    singular_realizes h sides leftRoom weightRoom rightRoom
  cases plan : matrices.mapM (Linear.decomposition source limits state) with
  | error refusal =>
      rw [plan] at realized
      exact ⟨_, realized⟩
  | ok fs =>
      rw [plan] at realized
      obtain ⟨out, gives, _⟩ := realized
      exact ⟨_, gives⟩

end Call

/-- The factors of a stack have layouts unless its columns overflow, and then the operation
faults. Otherwise it ends, or it faults because memory has no room for its results. Where the
start vectors come from plays no part, so that `singular` is one of the cases. -/
structure FormsFactors {α : Type} [Scalar α] (a : Tensor α) (stack : List Nat) (n m : Nat) :
    Prop where
  left : Accepted (singularShapes stack n m).1
  weights : Accepted (singularShapes stack n m).2.1
  right : Accepted (singularShapes stack n m).2.2 ↔ ¬ ColumnsOverflow stack n m
  overflows : ColumnsOverflow stack n m →
    ∀ {σ : Type} (source : Source σ α) (state : σ) (limits : PowerLimits α),
      Faults (singularWith source state limits a) (.overflow .multiply)
  ends : ¬ ColumnsOverflow stack n m → a.size < Word.room →
    ∀ {σ : Type} (source : Source σ α) (state : σ) (limits : PowerLimits α),
      ∃ result, Gives (singularWith source state limits a) result
  noRoom : ¬ ColumnsOverflow stack n m → Word.room ≤ a.size →
    ∀ {σ : Type} (source : Source σ α) (state : σ) (limits : PowerLimits α),
      Faults (singularWith source state limits a) .noRoom

theorem singular_formsFactors {α : Type} [Scalar α] {a : Tensor α}
    (shape : a.shape = stack ++ [n, m]) : FormsFactors a stack n m :=
  have given := accepted_shape shape
  { left := accepted_left given
    weights := accepted_weights given
    right := accepted_right_iff given
    overflows := fun overflow _ => singular_overflows shape overflow
    ends := fun counted room _ => singular_gives shape counted room
    noRoom := fun counted large _ => singular_noRoom shape counted large }

/-- Matrices without rows, with one column less than fits. -/
def narrowEmpty : Tensor Float :=
  ⟨⟨[4294967296, 0, 4294967295], [4294967295, 4294967295, 1], 0, rfl, rfl⟩, #[], 0, by decide⟩

theorem singular_formsFactors_narrowEmpty :
    ¬ ColumnsOverflow [4294967296] 0 4294967295 ∧
    FormsFactors narrowEmpty [4294967296] 0 4294967295 ∧
    ∀ config, ∃ result, Gives (singular narrowEmpty config) result := by
  have shape : narrowEmpty.shape = [4294967296] ++ [0, 4294967295] := rfl
  have counted : ¬ ColumnsOverflow [4294967296] 0 4294967295 :=
    fun overflow => absurd overflow.2.2 (by decide)
  have forms := singular_formsFactors shape
  exact ⟨counted, forms, fun config =>
    forms.ends counted (by decide) Generator.normalSource (.ofSeed config.seed) config.limits⟩

/-- Matrices without rows, as wide as their stack is long. -/
def wideEmpty : Tensor Float :=
  ⟨⟨[4294967296, 0, 4294967296], [4294967296, 4294967296, 1], 0, rfl, rfl⟩, #[], 0, by decide⟩

/-- The stack has a layout, and none of its three results has any elements. -/
theorem singular_overflows_wideEmpty :
    Layout.ofShape [4294967296, 0, 4294967296] = .ok wideEmpty.layout ∧
    (singularShapes [4294967296] 0 4294967296).2.2 = [4294967296, 4294967296, 0] ∧
    product [4294967296, 4294967296, 0] = 0 ∧
    ¬ Accepted (singularShapes [4294967296] 0 4294967296).2.2 ∧
    ∀ config, Faults (singular wideEmpty config) (.overflow .multiply) := by
  have shape : wideEmpty.shape = [4294967296] ++ [0, 4294967296] := rfl
  have overflow : ColumnsOverflow [4294967296] 0 4294967296 := ⟨rfl, by decide, by decide⟩
  refine ⟨rfl, rfl, rfl, fun right => ?_, fun config => ?_⟩
  · exact (accepted_right_iff (accepted_shape shape)).mp right overflow
  · exact singular_overflows shape overflow Generator.normalSource (.ofSeed config.seed)
      config.limits

end RowMajor.Stack

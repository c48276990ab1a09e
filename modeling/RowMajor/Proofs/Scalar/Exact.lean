import Mathlib
import RowMajor.Scalar

/-! Scalars that compute exactly: the operations of an ordered field, with its order
and its absolute value. Nothing is asked of the square root here. Every ordered field
is of this kind. -/
namespace RowMajor

class ExactScalar (α : Type) extends Field α, LinearOrder α, IsStrictOrderedRing α, Scalar α where
  abs_exact (x : α) : abs x = |x|
  less_exact (x y : α) : less x y = true ↔ x < y
  isZero_exact (x : α) : isZero x = true ↔ x = 0
  isFinite_exact (x : α) : isFinite x = true

namespace ExactScalar

/-- An ordered field, with any function in the place of the square root. -/
abbrev ofField (α : Type) [Field α] [LinearOrder α] [IsStrictOrderedRing α] (root : α → α) :
    ExactScalar α where
  abs x := |x|
  sqrt := root
  less x y := decide (x < y)
  isZero x := decide (x = 0)
  isFinite _ := true
  abs_exact _ := rfl
  less_exact _ _ := decide_eq_true_iff
  isZero_exact _ := decide_eq_true_iff
  isFinite_exact _ := rfl

/-- The square root of a rational number is that of a square, rounded down otherwise. -/
instance : ExactScalar ℚ := ofField ℚ Rat.sqrt

noncomputable instance : ExactScalar ℝ := ofField ℝ Real.sqrt

variable {α : Type} [ExactScalar α]

theorem abs_eq (x : α) : Scalar.abs x = |x| := abs_exact x

theorem less_iff (x y : α) : Scalar.less x y = true ↔ x < y := less_exact x y

theorem isZero_iff (x : α) : Scalar.isZero x = true ↔ x = 0 := isZero_exact x

theorem isFinite_eq (x : α) : Scalar.isFinite x = true := isFinite_exact x

theorem sum_eq (terms : List α) : Scalar.sum terms = terms.sum := by
  have from_left (x : α) : terms.foldl (· + ·) x = x + terms.sum := by
    induction terms generalizing x with
    | nil => simp only [List.foldl_nil, List.sum_nil, add_zero]
    | cons y rest ih => rw [List.foldl_cons, ih, List.sum_cons, add_assoc]
  rw [Scalar.sum, from_left, neg_zero, zero_add]

theorem dot_eq {n : Nat} (x y : Vector α n) :
    Scalar.dot x.toList y.toList = ∑ k, x.get k * y.get k := by
  have products : List.zipWith (· * ·) x.toList y.toList =
      List.ofFn fun k => x.get k * y.get k := by
    apply List.ext_getElem
    · simp
    · intro k _ _
      simp [Vector.get]
  rw [Scalar.dot, sum_eq, products, List.sum_ofFn]

/-- Taking one term after the other away is taking away their sum. -/
theorem foldl_sub {n : Nat} (g : Fin n → α) (x : α) :
    Fin.foldl n (fun acc k => acc - g k) x = x - ∑ k, g k := by
  induction n with
  | zero => simp only [Fin.foldl_zero, Finset.univ_eq_empty, Finset.sum_empty, sub_zero]
  | succ n ih => rw [Fin.foldl_succ_last, ih, Fin.sum_univ_castSucc, sub_sub]

theorem foldl_sub_if {n : Nat} (selects : Fin n → Prop) [DecidablePred selects] (g : Fin n → α)
    (x : α) : Fin.foldl n (fun acc k => if selects k then acc - g k else acc) x =
      x - ∑ k, if selects k then g k else 0 := by
  rw [← foldl_sub]
  congr 1
  funext acc k
  split
  · rfl
  · exact (sub_zero acc).symm

theorem foldl_mul {n : Nat} (g : Fin n → α) (x : α) :
    Fin.foldl n (fun acc k => acc * g k) x = x * ∏ k, g k := by
  induction n with
  | zero => simp only [Fin.foldl_zero, Finset.univ_eq_empty, Finset.prod_empty, mul_one]
  | succ n ih => rw [Fin.foldl_succ_last, ih, Fin.prod_univ_castSucc, mul_assoc]

theorem sum_below_succ {M : Type} [AddCommMonoid M] {n : Nat} (g : Fin n → M) (i : Fin n) :
    (∑ k : Fin n, if (k : Nat) < i + 1 then g k else 0) =
      (∑ k, if k < i then g k else 0) + g i := by
  have split_last (k : Fin n) : (if (k : Nat) < i + 1 then g k else 0) =
      (if k < i then g k else 0) + if k = i then g k else 0 := by
    rcases lt_trichotomy k i with before | rfl | after
    · simp [before, Fin.ne_of_lt before, Nat.lt_succ_of_lt before]
    · simp
    · have : ¬ (k : Nat) < i + 1 := by omega
      simp [this, Fin.lt_asymm after, Fin.ne_of_gt after]
  simp only [split_last, Finset.sum_add_distrib, Finset.sum_ite_eq', Finset.mem_univ, if_true]

end ExactScalar
end RowMajor

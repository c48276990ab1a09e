import Mathlib
import RowMajor.Proofs.Elimination.Reorder
import RowMajor.Proofs.Linear.RowOrder
import RowMajor.Proofs.Scalar.Sign

/-! Factorizations of a tensor whose rows come in another order. Where no search for a pivot
has a choice, the factors are the same, and only the row order and its sign tell the difference.
Beyond the order of the compared entries it is used that products change sign with a factor. -/
namespace RowMajor
variable {α : Type} [Scalar α] {n : Nat}

/-- One or minus one as a scalar. -/
def Scalar.ofSign (u : ℤˣ) : α :=
  if u = 1 then 1 else -1

theorem Pivots.sign_eq_ofSign (pivots : Pivots n) :
    (pivots.sign : α) = Scalar.ofSign ((-1) ^ pivots.swaps) :=
  pivots.sign_eq_ite

namespace Elimination
variable {a : Mat α n n}

/-- Different numbers of exchanges have the parity that the two orders give them. -/
theorem parity_reorder (orders : Scalar.Orders (Compares a)) (sole : HasNoChoice a)
    (σ : Equiv.Perm (Fin n)) : ((-1 : ℤˣ)) ^ (run (a.reorder σ)).pivots.swaps =
      Equiv.Perm.sign σ * (-1) ^ (run a).pivots.swaps := by
  obtain ⟨ρ, follows⟩ := follows_run a
  obtain ⟨ρ', follows'⟩ := follows_run (a.reorder σ)
  have composed : σ * ρ' = ρ := Equiv.ext fun p => by
    rw [Equiv.Perm.mul_apply, ← follows.order_eq, ← follows'.order_eq]
    exact (run_reorder orders sole σ).2 p
  rw [← follows.sign_eq, ← follows'.sign_eq, ← composed, Equiv.Perm.sign_mul, ← mul_assoc,
    Int.units_mul_self, one_mul]

end Elimination

namespace Mat

theorem foldl_mul_neg [SignedProducts α] (factors : Fin n → α) (x : α) :
    Fin.foldl n (fun acc i => acc * factors i) (-x) =
      -Fin.foldl n (fun acc i => acc * factors i) x := by
  induction n with
  | zero => simp only [Fin.foldl_zero]
  | succ n ih => rw [Fin.foldl_succ_last, Fin.foldl_succ_last, ih, SignedProducts.neg_mul]

/-- The determinant changes its sign with that of the pivots. Which of the two is the negated
one depends on where the minus sign stands. -/
theorem determinant_of_opposite [SignedProducts α] (f : Mat α n n) {pivots pivots' : Pivots n}
    {u : ℤˣ} (plain : (pivots.sign : α) = Scalar.ofSign u)
    (opposite : (pivots'.sign : α) = Scalar.ofSign (-u)) :
    (f.determinant pivots' = -f.determinant pivots ∨
        f.determinant pivots = -f.determinant pivots') ∧
      (-(-1) = (1 : α) → f.determinant pivots' = -f.determinant pivots) := by
  have product (pivots : Pivots n) : f.determinant pivots =
    Fin.foldl n (fun acc i => acc * f.entry i i) pivots.sign := rfl
  rcases Int.units_eq_one_or u with rfl | rfl
  · have minus : f.determinant pivots' = -f.determinant pivots := by
      rw [product, product, plain, opposite, ← foldl_mul_neg]
      rfl
    exact ⟨.inl minus, fun _ => minus⟩
  · have minus : f.determinant pivots = -f.determinant pivots' := by
      rw [product, product, plain, opposite, ← foldl_mul_neg]
      rfl
    refine ⟨.inr minus, fun twice => ?_⟩
    rw [product, product, plain, opposite, ← foldl_mul_neg]
    exact congrArg _ twice.symm

end Mat

namespace Linear
open InPlace (Returns)

/-- Reordering the rows of the input leaves the factors as they are. The row order is that of
the input behind the reordering, with the sign that this gives it, so that an exchange of two
rows negates the determinant. -/
theorem factorInPlace_reordered [SignedProducts α] {t t' : Tensor α} {a : Mat α n n}
    {σ : Equiv.Perm (Fin n)} (ht : t.Holds a) (ht' : t'.Holds (a.reorder σ))
    (orders : Scalar.Orders (Elimination.Compares a)) (sole : Elimination.HasNoChoice a) :
    ∃ (pivots pivots' : Pivots n) (lu lu' : Tensor α) (f : Mat α n n) (d d' : α),
      Returns factorInPlace t ⟨n, pivots⟩ lu ∧ lu.Holds f ∧
      Returns factorInPlace t' ⟨n, pivots'⟩ lu' ∧ lu'.Holds f ∧
      (∀ i, σ (pivots'.rows.get i) = pivots.rows.get i) ∧
      (pivots.sign : α) = Scalar.ofSign ((-1) ^ pivots.swaps) ∧
      (pivots'.sign : α) = Scalar.ofSign (Equiv.Perm.sign σ * (-1) ^ pivots.swaps) ∧
      determinant lu pivots = .ok d ∧ determinant lu' pivots' = .ok d' ∧
      (Equiv.Perm.sign σ = 1 → d' = d) ∧
      (Equiv.Perm.sign σ = -1 → (d' = -d ∨ d = -d') ∧ (-(-1) = (1 : α) → d' = -d)) := by
  obtain ⟨lu, factored, hlu⟩ := factorInPlace_returns ht
  obtain ⟨lu', factored', hlu'⟩ := factorInPlace_returns ht'
  obtain ⟨same, order⟩ := Elimination.run_reorder orders sole σ
  rw [same] at hlu'
  have plain : ((Elimination.run a).pivots.sign : α) = _ := Pivots.sign_eq_ofSign _
  have sign : ((Elimination.run (a.reorder σ)).pivots.sign : α) = _ := Pivots.sign_eq_ofSign _
  rw [Elimination.parity_reorder orders sole] at sign
  refine ⟨_, _, lu, lu', _, _, _, factored, hlu, factored', hlu', order, plain, sign,
    determinant_eq_ok _ hlu, determinant_eq_ok _ hlu', fun even => ?_, fun odd => ?_⟩
  · rw [even, one_mul, ← plain] at sign
    rw [Mat.determinant, Mat.determinant, sign]
  · rw [odd, neg_one_mul] at sign
    exact Mat.determinant_of_opposite _ plain sign

/-- Both steps that clear anything exchange rows. -/
def steepRows : Tensor Float :=
  ⟨lateExchange.layout, #[1, 3, 2, 4, 4, 4, 2, 6, 8], 0, by decide⟩

def steepMatrix : Mat Float 3 3 :=
  steepRows.matrix rfl

/-- The sizes that are compared, from small to large. -/
def steepSizes : Vector Float 3 :=
  #v[1, 2, 4]

theorem less_steepSizes :
    ∀ j k, Scalar.less (steepSizes.get j) (steepSizes.get k) = decide (j < k) := by
  decide +kernel

theorem steepMatrix_compares {x : Float} (h : Elimination.Compares steepMatrix x) :
    ∃ k, x = steepSizes.get k := by
  obtain ⟨i, p, le, rfl⟩ := h
  revert i p
  decide +kernel

theorem steepMatrix_orders : Scalar.Orders (Elimination.Compares steepMatrix) where
  irrefl x hx := by
    obtain ⟨j, rfl⟩ := steepMatrix_compares hx
    rw [less_steepSizes, decide_eq_false (lt_irrefl j)]
  trans x y z hx hy hz below above := by
    obtain ⟨i, rfl⟩ := steepMatrix_compares hx
    obtain ⟨j, rfl⟩ := steepMatrix_compares hy
    obtain ⟨k, rfl⟩ := steepMatrix_compares hz
    rw [less_steepSizes, decide_eq_true_iff] at below above ⊢
    exact lt_trans below above
  total x y hx hy differ := by
    obtain ⟨j, rfl⟩ := steepMatrix_compares hx
    obtain ⟨k, rfl⟩ := steepMatrix_compares hy
    rw [less_steepSizes, less_steepSizes, decide_eq_true_iff, decide_eq_true_iff]
    exact lt_or_gt_of_ne fun same => differ (congrArg steepSizes.get same)
  start x hx := by
    have positive : ∀ k, Scalar.less (-1) (steepSizes.get k) = true := by decide +kernel
    obtain ⟨k, rfl⟩ := steepMatrix_compares hx
    exact positive k

theorem steepMatrix_hasNoChoice : Elimination.HasNoChoice steepMatrix := by
  unfold Elimination.HasNoChoice Mat.IsLargest
  decide +kernel

/-- With its first two rows exchanged the matrix is factored by one exchange and not by two. -/
theorem factorInPlace_reordered_steepRows :
    Scalar.Orders (Elimination.Compares steepMatrix) ∧ Elimination.HasNoChoice steepMatrix ∧
    ∃ (pivots pivots' : Pivots 3) (lu lu' : Tensor Float) (f : Mat Float 3 3) (d d' : Float),
      Returns factorInPlace steepRows ⟨3, pivots⟩ lu ∧ lu.Holds f ∧
      Returns factorInPlace (steepRows.withMatrix rfl (steepMatrix.reorder (Equiv.swap 0 1)))
        ⟨3, pivots'⟩ lu' ∧ lu'.Holds f ∧
      (∀ i, Equiv.swap 0 1 (pivots'.rows.get i) = pivots.rows.get i) ∧
      (pivots.sign : Float) = Scalar.ofSign ((-1) ^ pivots.swaps) ∧
      (pivots'.sign : Float) =
        Scalar.ofSign (Equiv.Perm.sign (Equiv.swap (0 : Fin 3) 1) * (-1) ^ pivots.swaps) ∧
      determinant lu pivots = .ok d ∧ determinant lu' pivots' = .ok d' ∧
      (Equiv.Perm.sign (Equiv.swap (0 : Fin 3) 1) = 1 → d' = d) ∧
      (Equiv.Perm.sign (Equiv.swap (0 : Fin 3) 1) = -1 →
        (d' = -d ∨ d = -d') ∧ (-(-1) = (1 : Float) → d' = -d)) :=
  ⟨steepMatrix_orders, steepMatrix_hasNoChoice,
    factorInPlace_reordered ⟨rfl, rfl⟩ (steepRows.holds_withMatrix rfl _) steepMatrix_orders
      steepMatrix_hasNoChoice⟩

end Linear
end RowMajor

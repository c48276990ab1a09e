import Mathlib
import RowMajor.Proofs.Elimination.Order

/-! Eliminations of a matrix and of the same matrix with its rows in another order. Where every
search has one largest entry, both find the same rows, wherever these lie, and so end with the
same factors. No law of the scalars is used but the order of the entries that are compared. -/
namespace RowMajor
variable {α : Type} [Scalar α] {n : Nat}

/-- Comparison is a strict total order of the values that occur, and a search that starts from
minus one passes over none of them. -/
structure Scalar.Orders (occurs : α → Prop) : Prop where
  irrefl : ∀ x, occurs x → Scalar.less x x = false
  trans : ∀ x y z, occurs x → occurs y → occurs z →
    Scalar.less x y = true → Scalar.less y z = true → Scalar.less x z = true
  total : ∀ x y, occurs x → occurs y → x ≠ y → Scalar.less x y = true ∨ Scalar.less y x = true
  start : ∀ x, occurs x → Scalar.less (-1) x = true

namespace Mat

/-- No entry of column `i` from row `i` on is larger than that of row `k`. -/
def IsLargest (a : Mat α n n) (i k : Fin n) : Prop :=
  i ≤ k ∧ ∀ p, i ≤ p →
    Scalar.less (Scalar.abs (a.entry k i)) (Scalar.abs (a.entry p i)) = false

/-- Row `k` alone has the largest entry of column `i` from row `i` on. -/
structure Leads (a : Mat α n n) (i k : Fin n) : Prop where
  le : i ≤ k
  seen : Scalar.less (-1) (Scalar.abs (a.entry k i)) = true
  larger : ∀ p, i ≤ p → p ≠ k →
    Scalar.less (Scalar.abs (a.entry p i)) (Scalar.abs (a.entry k i)) = true ∧
      Scalar.less (Scalar.abs (a.entry k i)) (Scalar.abs (a.entry p i)) = false

section Orders
variable {a : Mat α n n} {i : Fin n} {occurs : α → Prop}

theorem exists_isLargest (orders : Scalar.Orders occurs)
    (occur : ∀ p, i ≤ p → occurs (Scalar.abs (a.entry p i))) : ∃ k, a.IsLargest i k := by
  let Row : Type := { p : Fin n // i ≤ p }
  let larger (p q : Row) : Prop :=
    Scalar.less (Scalar.abs (a.entry q.1 i)) (Scalar.abs (a.entry p.1 i)) = true
  have irrefl : Std.Irrefl larger := ⟨fun p => by
    show ¬ Scalar.less _ _ = true
    rw [orders.irrefl _ (occur p.1 p.2)]
    exact Bool.false_ne_true⟩
  have trans : IsTrans Row larger := ⟨fun p q r above below =>
    orders.trans _ _ _ (occur r.1 r.2) (occur q.1 q.2) (occur p.1 p.2) below above⟩
  have founded : WellFounded larger := Finite.wellFounded_of_trans_of_irrefl larger
  obtain ⟨k, -, most⟩ := founded.has_min Set.univ ⟨⟨i, Fin.le_refl i⟩, Set.mem_univ _⟩
  refine ⟨k.1, k.2, fun p reached => ?_⟩
  rw [← Bool.not_eq_true]
  exact most ⟨p, reached⟩ (Set.mem_univ _)

/-- If no two rows have a largest entry, one row leads. -/
theorem exists_leads (orders : Scalar.Orders occurs)
    (occur : ∀ p, i ≤ p → occurs (Scalar.abs (a.entry p i)))
    (sole : ∀ p q, a.IsLargest i p → a.IsLargest i q → p = q) : ∃ k, a.Leads i k := by
  obtain ⟨k, largest⟩ := exists_isLargest orders occur
  refine ⟨k, largest.1, orders.start _ (occur k largest.1), fun p reached other => ?_⟩
  have differ : Scalar.abs (a.entry p i) ≠ Scalar.abs (a.entry k i) := fun same =>
    other (sole p k ⟨reached, fun q => same ▸ largest.2 q⟩ largest)
  have most := largest.2 p reached
  refine ⟨?_, most⟩
  rcases orders.total _ _ (occur p reached) (occur k largest.1) differ with smaller | larger
  · exact smaller
  · rw [most] at larger
    cases larger

end Orders

/-- Until the search comes to the leading row it holds something smaller, and from there on
nothing replaces it. -/
theorem Leads.pivotRow_eq {a : Mat α n n} {i k : Fin n} (h : a.Leads i k) : a.pivotRow i = k := by
  let size (p : Fin n) : α := Scalar.abs (a.entry p i)
  let searched (count : Nat) (best : α × Fin n) : Prop :=
    (k < count → best = (size k, k)) ∧
      (count ≤ k → best.1 = -1 ∨ ∃ p, i ≤ p ∧ p ≠ k ∧ best.1 = size p)
  have done : ∃ best, searched n best ∧ best.2 = a.pivotRow i := by
    refine ⟨_, ?_, rfl⟩
    apply foldl_invariant searched
    · exact ⟨fun small => absurd small (Nat.not_lt_zero k), fun _ => .inl rfl⟩
    · rintro j best ⟨found, before⟩
      rcases lt_trichotomy j k with early | rfl | late
      · refine ⟨fun past => absurd past (Nat.not_lt_of_le early), fun _ => ?_⟩
        have earlier := before (Nat.le_of_lt early)
        split
        · rename_i reached
          dsimp only
          split
          · exact .inr ⟨j, reached, Fin.ne_of_lt early, rfl⟩
          · exact earlier
        · exact earlier
      · refine ⟨fun _ => ?_, fun ahead => absurd ahead (Nat.not_succ_le_self j)⟩
        have smaller : Scalar.less best.1 (size j) = true := by
          rcases before (Nat.le_refl j) with none | ⟨p, reached, other, same⟩
          · rw [none]
            exact h.seen
          · rw [same]
            exact (h.larger p reached other).1
        rw [if_pos h.le]
        exact if_pos smaller
      · have past : (k : Nat) < j := late
        refine ⟨fun _ => ?_, fun ahead => absurd ahead (by omega)⟩
        have kept := found past
        have larger := (h.larger j (Fin.le_trans h.le (Fin.le_of_lt late)) (Fin.ne_of_gt late)).2
        rw [kept, if_pos (Fin.le_trans h.le (Fin.le_of_lt late)), if_neg]
        rw [larger]
        exact Bool.false_ne_true
  obtain ⟨best, ⟨found, _⟩, row⟩ := done
  rw [← row, found k.isLt]

/-- A permutation that keeps the first rows in place keeps the others behind them. -/
theorem le_perm_iff {τ : Equiv.Perm (Fin n)} {count : Nat}
    (fixed : ∀ p : Fin n, p < count → τ p = p) (p : Fin n) : count ≤ τ p ↔ count ≤ p := by
  constructor
  · intro behind
    by_contra ahead
    rw [fixed p (Nat.lt_of_not_le ahead)] at behind
    exact ahead behind
  · intro behind
    by_contra ahead
    have same := τ.injective (fixed (τ p) (Nat.lt_of_not_le ahead))
    rw [same] at ahead
    exact ahead behind

/-- The leading row is found wherever it lies. -/
theorem Leads.reorder {a : Mat α n n} {i k : Fin n} (h : a.Leads i k) {τ : Equiv.Perm (Fin n)}
    (fixed : ∀ p : Fin n, p < i → τ p = p) : (a.reorder τ).Leads i (τ.symm k) where
  le := by
    have behind : (i : Nat) ≤ τ (τ.symm k) ↔ (i : Nat) ≤ τ.symm k := le_perm_iff fixed _
    rw [τ.apply_symm_apply] at behind
    exact behind.mp h.le
  seen := by
    rw [entry_reorder, τ.apply_symm_apply]
    exact h.seen
  larger p reached other := by
    rw [entry_reorder, entry_reorder, τ.apply_symm_apply]
    have behind : (i : Nat) ≤ τ p := (le_perm_iff fixed p).mpr reached
    refine h.larger (τ p) behind fun same => other ?_
    rw [← same, τ.symm_apply_apply]

end Mat

namespace Elimination

/-- After `count` steps the second elimination holds the rows of the first in the order `τ`,
in which only rows that have not had their turn have moved. Each row is the same row of the
input, which the second one got in the order `σ`. -/
structure Matches (σ τ : Equiv.Perm (Fin n)) (count : Nat) (e e' : Elimination α n) : Prop where
  matrix : e'.matrix = e.matrix.reorder τ
  fixed : ∀ p : Fin n, p < count → τ p = p
  order : ∀ p, σ (e'.pivots.order p) = e.pivots.order (τ p)

namespace Matches
variable {σ τ : Equiv.Perm (Fin n)} {e e' : Elimination α n} {i k : Fin n}

omit [Scalar α] in
theorem start (σ : Equiv.Perm (Fin n)) (a : Mat α n n) :
    Matches σ σ 0 (Elimination.start a) (Elimination.start (a.reorder σ)) where
  matrix := rfl
  fixed p small := absurd small (Nat.not_lt_zero p)
  order p := by
    have identity (b : Mat α n n) : (Elimination.start b).pivots.order = id :=
      Pivots.order_identity
    rw [identity, identity]
    rfl

/-- The pivot rows are the same, so that bringing both to the diagonal undoes one difference
of the orders. -/
theorem choose (h : Matches σ τ i e e') (leads : e.matrix.Leads i k) :
    Matches σ (Equiv.swap i k * τ * Equiv.swap i (τ.symm k)) (i + 1) (e.choose i)
      (e'.choose i) := by
  have found : e.matrix.pivotRow i = k := leads.pivotRow_eq
  have leads' := leads.reorder h.fixed
  have found' : e'.matrix.pivotRow i = τ.symm k := by
    rw [h.matrix]
    exact leads'.pivotRow_eq
  constructor
  · rw [matrix_choose, matrix_choose, found, found', h.matrix, Mat.reorder_reorder,
      Mat.reorder_reorder]
    congr 1
    funext p
    simp only [Function.comp_apply, Equiv.Perm.mul_apply, Equiv.swap_apply_self]
  · intro p small
    rcases Nat.lt_succ_iff_lt_or_eq.mp small with before | now
    · simp only [Equiv.Perm.mul_apply, swap_of_lt leads'.le before, h.fixed p before,
        swap_of_lt leads.le before]
    · obtain rfl : p = i := Fin.ext now
      simp only [Equiv.Perm.mul_apply, Equiv.swap_apply_left, Equiv.apply_symm_apply,
        Equiv.swap_apply_right]
  · intro p
    rw [order_choose, order_choose, found, found']
    simp only [Function.comp_apply, Equiv.Perm.mul_apply, Equiv.swap_apply_self]
    exact h.order _

theorem step (h : Matches σ τ i e e') (leads : e.matrix.Leads i k) :
    Matches σ (Equiv.swap i k * τ * Equiv.swap i (τ.symm k)) (i + 1) (e.step i) (e'.step i) := by
  have chosen := h.choose leads
  constructor
  · rw [step_eq, step_eq]
    show (e'.choose i).matrix.eliminate i = ((e.choose i).matrix.eliminate i).reorder _
    rw [chosen.matrix]
    apply Mat.eliminate_reorder
    · exact chosen.fixed i (Nat.lt_succ_self i)
    · exact Mat.le_perm_iff chosen.fixed
  · exact chosen.fixed
  · exact chosen.order

end Matches

theorem stage_succ (a : Mat α n n) (i : Fin n) : stage a (i + 1) = (stage a i).step i :=
  loopTo_succ step (Elimination.start a) i

/-- The values that the searches of an elimination compare. -/
def Compares (a : Mat α n n) (x : α) : Prop :=
  ∃ i p : Fin n, i ≤ p ∧ x = Scalar.abs ((stage a i).matrix.entry p i)

/-- No search of the elimination has a choice between two rows. -/
def HasNoChoice (a : Mat α n n) : Prop :=
  ∀ i p q : Fin n, (stage a i).matrix.IsLargest i p → (stage a i).matrix.IsLargest i q → p = q

variable {a : Mat α n n} (orders : Scalar.Orders (Compares a)) (sole : HasNoChoice a)
include orders sole

theorem matches_stage (σ : Equiv.Perm (Fin n))
    {count : Nat} (bound : count ≤ n) :
    ∃ τ, Matches σ τ count (stage a count) (stage (a.reorder σ) count) := by
  induction count with
  | zero => exact ⟨σ, Matches.start σ a⟩
  | succ count ih =>
      let i : Fin n := ⟨count, bound⟩
      obtain ⟨τ, together⟩ := ih (Nat.le_of_succ_le bound)
      obtain ⟨k, leads⟩ := Mat.exists_leads orders (fun p le => ⟨i, p, le, rfl⟩) (sole i)
      rw [stage_succ a i, stage_succ (a.reorder σ) i]
      exact ⟨_, together.step leads⟩

/-- In the end no row is left that could have moved. -/
theorem run_reorder (σ : Equiv.Perm (Fin n)) :
    (run (a.reorder σ)).matrix = (run a).matrix ∧
      ∀ p, σ ((run (a.reorder σ)).pivots.order p) = (run a).pivots.order p := by
  obtain ⟨τ, together⟩ := matches_stage orders sole σ (Nat.le_refl n)
  obtain rfl : τ = 1 := Equiv.ext fun p => together.fixed p p.isLt
  rw [← stage_all, ← stage_all]
  exact ⟨together.matrix.trans (Mat.reorder_id _), together.order⟩

end Elimination
end RowMajor

import Mathlib
import RowMajor.Proofs.Singular.Component

/-! What a decomposition has taken off a matrix after some of its components, and
that another component of the working copy keeps this up. -/
namespace RowMajor
open Matrix
variable {n m k : Nat}

/-- The first `count` components and the working copy `w` make up the matrix `a`. Each
of them that had anything to find has taken one dimension off the range. -/
structure Peeled (a w : Matrix (Fin n) (Fin m) ℝ) (found : Fin k → Triplet ℝ n m)
    (count : Nat) : Prop where
  sum : a = w + ∑ c : Fin k, if (c : Nat) < count then (found c).toMatrix else 0
  rank : w.rank = a.rank - count
  normal : ∀ c : Fin k, (c : Nat) < count → (found c).Normal
  weight : ∀ c : Fin k, (c : Nat) < count → ((found c).sigma ≠ 0 ↔ c < a.rank)
  outside : ∀ c : Fin k, (c : Nat) < count → wᵀ *ᵥ (found c).left.get = 0
  orthogonal : ∀ d : Fin k, (d : Nat) < count → ∀ c < d,
    (found d).left.get ⬝ᵥ (found c).left.get = 0

/-- What holds of the components before `c` and of a new one at `c`. -/
theorem update_below {found : Fin k → Triplet ℝ n m} {c : Fin k} {t : Triplet ℝ n m}
    {motive : Fin k → Triplet ℝ n m → Prop} (old : ∀ d : Fin k, (d : Nat) < c → motive d (found d))
    (new : motive c t) (d : Fin k) (before : (d : Nat) < c + 1) :
    motive d (Function.update found c t d) := by
  by_cases same : d = c
  · subst same
    rwa [Function.update_self]
  · rw [Function.update_of_ne same]
    have := Fin.val_ne_of_ne same
    exact old d (by omega)

/-- What the components up to `c` add up to, with a new one at `c`. -/
theorem sum_update_below {M : Type} [AddCommMonoid M] (found : Fin k → Triplet ℝ n m) (c : Fin k)
    (t : Triplet ℝ n m) (g : Triplet ℝ n m → M) :
    (∑ d : Fin k, if (d : Nat) < c + 1 then g (Function.update found c t d) else 0) =
      (∑ d : Fin k, if (d : Nat) < c then g (found d) else 0) + g t := by
  rw [ExactScalar.sum_below_succ, Function.update_self]
  congr 1
  apply Finset.sum_congr rfl
  intro d _
  split
  · rename_i before
    rw [Function.update_of_ne (Fin.ne_of_lt before)]
    exact (if_pos before).symm
  · rename_i after
    exact (if_neg after).symm

namespace Peeled
variable {a w : Matrix (Fin n) (Fin m) ℝ} {found : Fin k → Triplet ℝ n m}

theorem start (a : Matrix (Fin n) (Fin m) ℝ) (found : Fin k → Triplet ℝ n m) :
    Peeled a a found 0 where
  sum := by simp only [Nat.not_lt_zero, if_false, Finset.sum_const_zero, add_zero]
  rank := rfl
  normal c before := (Nat.not_lt_zero c before).elim
  weight c before := (Nat.not_lt_zero c before).elim
  outside c before := (Nat.not_lt_zero c before).elim
  orthogonal d before := (Nat.not_lt_zero d before).elim

variable {c : Fin k} {t : Triplet ℝ n m}

theorem sum_step (h : Peeled a w found c) :
    a = w - t.toMatrix + ∑ d : Fin k,
      if (d : Nat) < c + 1 then (Function.update found c t d).toMatrix else 0 := by
  rw [sum_update_below found c t Triplet.toMatrix, sub_add_eq_add_sub, ← add_assoc,
    add_sub_cancel_right]
  exact h.sum

theorem weight_step (h : Peeled a w found c) (next : t.IsComponent w)
    (finds : w ≠ 0 → t.sigma ≠ 0) : t.sigma ≠ 0 ↔ c < a.rank := by
  have left := h.rank
  constructor
  · -- A component with weight needs a dimension to take off.
    intro weight
    have taken := next.rank_rest weight
    omega
  · intro inside
    apply finds
    rintro rfl
    rw [rank_zero] at left
    omega

theorem rank_step (h : Peeled a w found c) (next : t.IsComponent w)
    (finds : w ≠ 0 → t.sigma ≠ 0) : (w - t.toMatrix).rank = a.rank - (c + 1) := by
  have left := h.rank
  by_cases weight : t.sigma = 0
  · have beyond : ¬ c < a.rank := by
      rwa [← h.weight_step next finds, not_not]
    rw [Triplet.toMatrix_settled weight, sub_zero]
    omega
  · have taken := next.rank_rest weight
    omega

/-- The new component is one that finds something as long as anything is left. -/
theorem step (h : Peeled a w found c) (next : t.IsComponent w) (finds : w ≠ 0 → t.sigma ≠ 0) :
    Peeled a (w - t.toMatrix) (Function.update found c t) (c + 1) where
  sum := h.sum_step
  rank := h.rank_step next finds
  normal := update_below h.normal next.toNormal
  weight := update_below (motive := fun d s => s.sigma ≠ 0 ↔ d < a.rank) h.weight
    (h.weight_step next finds)
  outside := update_below (motive := fun _ s => (w - t.toMatrix)ᵀ *ᵥ s.left.get = 0)
    (fun d before => next.rest_transpose_outside (h.outside d before)) next.rest_transpose_left
  orthogonal := by
    have pairs : ∀ d : Fin k, (d : Nat) < c + 1 → ∀ e < d,
        (Function.update found c t d).left.get ⬝ᵥ (found e).left.get = 0 := by
      apply update_below (motive := fun d s => ∀ e < d, s.left.get ⬝ᵥ (found e).left.get = 0)
      · exact h.orthogonal
      · exact fun e before => next.left_dotProduct_outside (h.outside e before)
    -- The earlier of the two is never the new one.
    intro d before e earlier
    have same : e ≠ c := by
      have : (e : Nat) < d := earlier
      rintro rfl
      omega
    rw [Function.update_of_ne same]
    exact pairs d before e earlier

/-- As many components as the rank leave nothing behind. -/
theorem rest_eq_zero (h : Peeled a w found k) (enough : a.rank ≤ k) : w = 0 := by
  have none : w.rank = 0 := by
    rw [h.rank, Nat.sub_eq_zero_of_le enough]
  have range : LinearMap.range w.mulVecLin = ⊥ := Submodule.finrank_eq_zero.mp none
  apply ext_iff_mulVec.mpr
  intro z
  have inside : w *ᵥ z ∈ LinearMap.range w.mulVecLin := ⟨z, rfl⟩
  rw [range, Submodule.mem_bot] at inside
  rw [inside, zero_mulVec]

theorem left_dotProduct (h : Peeled a w found k) (c d : Fin k) (weight : (found c).sigma ≠ 0) :
    (found c).left.get ⬝ᵥ (found d).left.get = if c = d then 1 else 0 := by
  rcases lt_trichotomy c d with before | rfl | after
  · rw [if_neg (ne_of_lt before), dotProduct_comm]
    exact h.orthogonal d d.isLt c before
  · rw [if_pos rfl]
    exact (h.normal c c.isLt).unit_left weight
  · rw [if_neg (ne_of_gt after)]
    exact h.orthogonal c c.isLt d after

theorem sigma_pos_iff (h : Peeled a w found k) (c : Fin k) : 0 < (found c).sigma ↔ c < a.rank := by
  rw [(h.normal c c.isLt).nonneg.lt_iff_ne', h.weight c c.isLt]

theorem settled (h : Peeled a w found k) {c : Fin k} (beyond : a.rank ≤ c) :
    (found c).sigma = 0 ∧ (found c).left.get = 0 ∧ (found c).right.get = 0 := by
  have weightless : (found c).sigma = 0 := by
    by_contra weight
    exact absurd ((h.weight c c.isLt).mp weight) (Nat.not_lt.mpr beyond)
  have normal := h.normal c c.isLt
  exact ⟨weightless, normal.settled_left weightless, normal.settled_right weightless⟩

end Peeled
end RowMajor

import Mathlib
import RowMajor.Proofs.Orthogonal.Projection

/-! What a column of both orthogonal factors depends on: that column of the matrix and those
before it. No step goes back to a column that is finished. No law of the scalars is used. -/
namespace RowMajor
variable {α : Type} {n : Nat}

def Mat.SameColumns {m : Nat} (count : Nat) (a b : Mat α n m) : Prop :=
  ∀ k : Fin m, k < count → a.column k = b.column k

namespace Orthogonal
variable [Scalar α]

/-- Coefficients are recorded in the column at hand only. -/
theorem r_project_of_ne {i j k : Fin n} (other : k ≠ j) (state : Vector α n × Orthogonal α n)
    (p : Fin n) : (project j state i).2.r.entry p k = state.2.r.entry p k := by
  rw [project]
  split
  · exact (Mat.entry_put ..).trans (if_neg fun here => other here.2)
  · rfl

theorem r_reduced_of_ne (a : Mat α n n) (f : Orthogonal α n) {j k : Fin n} (other : k ≠ j)
    (p : Fin n) : (reduced a f j).2.r.entry p k = f.r.entry p k :=
  foldl_invariant (fun _ state => state.2.r.entry p k = f.r.entry p k) rfl
    fun _ state same => (r_project_of_ne other state p).trans same

theorem column_r_of_ne (a : Mat α n n) (f : Orthogonal α n) {j k : Fin n} (other : k ≠ j) :
    (column a f j).r.column k = f.r.column k := by
  apply congrArg Vector.ofFn
  funext p
  rw [column_eq, Mat.entry_put, if_neg fun here => other here.2]
  exact r_reduced_of_ne a f other p

/-- A column of the factors is final once it has been found. -/
theorem stage_settled (a : Mat α n n) {k : Fin n} {early late : Nat} (settled : k < early)
    (le : early ≤ late) (bound : late ≤ n) :
    (stage a late).q.column k = (stage a early).q.column k ∧
      (stage a late).r.column k = (stage a early).r.column k := by
  induction late, le using Nat.le_induction with
  | base => exact ⟨rfl, rfl⟩
  | succ late le ih =>
      have other : k ≠ ⟨late, bound⟩ := Fin.ne_of_lt (Nat.lt_of_lt_of_le settled le)
      have step : stage a (late + 1) = column a (stage a late) ⟨late, bound⟩ :=
        loopTo_succ (column a) _ ⟨late, bound⟩
      rw [step, column_q, if_neg other, column_r_of_ne a _ other]
      exact ih (Nat.le_of_succ_le bound)

variable {a b : Mat α n n} {count : Nat}

/-- A step reads one column of the matrix. -/
theorem column_congr {j : Fin n} (same : a.column j = b.column j) (f : Orthogonal α n) :
    column a f j = column b f j := by
  rw [column, column, same]

theorem stage_congr (bound : count ≤ n) (same : Mat.SameColumns count a b) :
    stage a count = stage b count := by
  apply loopTo_congr bound bound
  intro i p f equal before
  obtain rfl : i = p := Fin.ext equal
  exact column_congr (same i before) f

theorem run_sameColumns (same : Mat.SameColumns count a b) :
    Mat.SameColumns count (run a).q (run b).q ∧ Mat.SameColumns count (run a).r (run b).r := by
  have final (k : Fin n) (before : k < count) :
      (run a).q.column k = (run b).q.column k ∧ (run a).r.column k = (run b).r.column k := by
    have own := stage_settled a (Nat.lt_succ_self k) k.isLt (Nat.le_refl n)
    have other := stage_settled b (Nat.lt_succ_self k) k.isLt (Nat.le_refl n)
    have found : stage a (k + 1) = stage b (k + 1) :=
      stage_congr k.isLt fun i small => same i (Nat.lt_of_lt_of_le small before)
    rw [stage_all] at own other
    rw [own.1, own.2, other.1, other.2, found]
    exact ⟨rfl, rfl⟩
  exact ⟨fun k before => (final k before).1, fun k before => (final k before).2⟩

end Orthogonal
end RowMajor

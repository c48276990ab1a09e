import Mathlib
import RowMajor.Proofs.Fold
import RowMajor.Proofs.Singular.Stage

/-! What the targets of a decomposition held before. It decides nothing, and nothing is
left of it once every component has been found. -/
namespace RowMajor
variable {α σ : Type} {n m k : Nat}

theorem SingularFactors.ext_triplet {f g : SingularFactors α n m k} (h : f.triplet = g.triplet) :
    f = g := by
  have left : f.u = g.u := Mat.ext_entry fun i c => by
    rw [← Mat.get_column, ← Mat.get_column]
    exact congrArg (fun t => t.left.get i) (congrFun h c)
  have weight : f.s = g.s := Vector.ext fun c hc => congrArg Triplet.sigma (congrFun h ⟨c, hc⟩)
  have right : f.v = g.v := Mat.ext_entry fun i c => by
    rw [← Mat.get_column, ← Mat.get_column]
    exact congrArg (fun t => t.right.get i) (congrFun h c)
  cases f
  cases g
  cases left
  cases weight
  cases right
  rfl

namespace Deflation
variable [Scalar α] {source : Source σ α} {limits : PowerLimits α}

/-- Two decompositions that differ at most in factors not found yet. -/
structure Alike (count : Nat) (d e : Deflation σ α n m k) : Prop where
  work_eq : d.work = e.work
  state_eq : d.state = e.state
  halts_eq : d.halts = e.halts
  failed_eq : d.failed = e.failed
  triplet_eq : d.failed = none → ∀ c : Fin k, c < count → d.factors.triplet c = e.factors.triplet c

theorem Alike.accept {c : Fin k} {d e : Deflation σ α n m k} (h : Alike c d e)
    (before : d.failed = none) (state : σ) (t : Triplet α n m) (halt : Halt) (iterations : Nat) :
    Alike (c + 1) (d.accept c state t halt iterations) (e.accept c state t halt iterations) where
  work_eq := congrArg (Mat.deflate · t) h.work_eq
  state_eq := rfl
  halts_eq := congrArg (· ++ [(halt, iterations)]) h.halts_eq
  failed_eq := rfl
  triplet_eq _ q less := by
    simp only [Deflation.accept, SingularFactors.triplet_record]
    by_cases same : q = c
    · rw [same, Function.update_self, Function.update_self]
    · rw [Function.update_of_ne same, Function.update_of_ne same]
      have apart := Fin.val_ne_of_ne same
      exact h.triplet_eq before q (by omega)

theorem Alike.step {c : Fin k} {d e : Deflation σ α n m k} (h : Alike c d e) :
    Alike (c + 1) (step source limits d c) (step source limits e c) := by
  unfold Deflation.step
  rw [← h.failed_eq, ← h.work_eq, ← h.state_eq]
  cases before : d.failed with
  | some failed =>
      simp only [Option.isSome_some, if_true]
      exact ⟨h.work_eq, h.state_eq, h.halts_eq, h.failed_eq,
        fun none => nomatch before.symm.trans none⟩
  | none =>
      rw [Option.isSome_none, if_neg Bool.false_ne_true, if_neg Bool.false_ne_true]
      split
      · split
        · exact h.accept before _ _ _ _
        · exact ⟨rfl, rfl, h.halts_eq, rfl, fun none => nomatch none⟩
      · split
        · exact h.accept before _ _ _ _
        · exact ⟨rfl, rfl, h.halts_eq, rfl, fun none => nomatch none⟩

theorem alike_stage (state : σ) (a : Mat α n m) (f g : SingularFactors α n m k) {count : Nat}
    (h : count ≤ k) :
    Alike count (stage source limits state a f count) (stage source limits state a g count) := by
  induction count with
  | zero => exact ⟨rfl, rfl, rfl, rfl, fun _ c less => absurd less (Nat.not_lt_zero c)⟩
  | succ count ih =>
      let c : Fin k := ⟨count, h⟩
      change Alike (c + 1) (stage source limits state a f (c + 1))
        (stage source limits state a g (c + 1))
      rw [stage_succ, stage_succ]
      exact (ih (Nat.le_of_succ_le h)).step

omit [Scalar α] in
theorem Alike.factors_eq {d e : Deflation σ α n m k} (h : Alike k d e) (done : d.failed = none) :
    d.factors = e.factors :=
  SingularFactors.ext_triplet (funext fun c => h.triplet_eq done c c.isLt)

theorem alike_run (source : Source σ α) (limits : PowerLimits α) (state : σ) (a : Mat α n m)
    (f g : SingularFactors α n m k) :
    Alike k (run source limits state a f) (run source limits state a g) := by
  rw [← stage_all, ← stage_all]
  exact alike_stage state a f g (Nat.le_refl k)

/-- Whatever the factors held before, the same component fails, or all factors are the same. -/
theorem run_overwrites (source : Source σ α) (limits : PowerLimits α) (state : σ) (a : Mat α n m)
    (f g : SingularFactors α n m k) :
    (run source limits state a f).failed = (run source limits state a g).failed ∧
      ((run source limits state a f).failed = none →
        (run source limits state a f).factors = (run source limits state a g).factors) := by
  have alike := alike_run source limits state a f g
  exact ⟨alike.failed_eq, alike.factors_eq⟩

/-- No component is sought in a matrix without entries. -/
theorem failed_run_of_empty (empty : k = 0) (source : Source σ α) (limits : PowerLimits α)
    (state : σ) (a : Mat α n m) (f : SingularFactors α n m k) :
    (run source limits state a f).failed = none := by
  subst empty
  rfl

end Deflation
end RowMajor

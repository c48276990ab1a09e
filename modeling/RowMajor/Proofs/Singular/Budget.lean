import Mathlib
import RowMajor.Proofs.Singular.Overwrite

/-! Decompositions under two budgets that agree in everything else. They go on together until
the smaller budget is spent on a component. What has been found by then is never written again,
and of the components behind it nothing has been written. -/
namespace RowMajor
variable {α σ : Type} [Scalar α] {n m k : Nat} {source : Source σ α} {epsilon : α}
  {small large : Nat}

/-- An iteration that stops within its budget stops in the same way within a larger one. -/
theorem powerIterate_mono (more : small ≤ large) {b : Mat α n n} {finished : Nat}
    {v : Vector α n} {found : PowerRun α n}
    (h : powerIterate b epsilon small finished v = some found) :
    powerIterate b epsilon large finished v = some found := by
  induction small generalizing large finished v with
  | zero => cases h
  | succ small ih =>
      obtain ⟨large, rfl⟩ := Nat.exists_eq_add_of_lt (Nat.lt_of_succ_le more)
      have rest : small ≤ small + large := Nat.le_add_right small large
      simp only [powerIterate] at h ⊢
      split at h
      · rename_i collapsed
        rw [if_pos collapsed]
        exact h
      · rename_i regular
        rw [if_neg regular]
        split at h
        · rename_i parallel
          rw [if_pos parallel]
          exact h
        · rename_i apart
          rw [if_neg apart]
          exact ih rest h

/-- The source is drawn from before the budget plays a part. -/
theorem Mat.leading_mono (more : small ≤ large) {b : Mat α n n} {state after : σ}
    {found : PowerRun α n} (h : b.leading source ⟨epsilon, small⟩ state = (some found, after)) :
    b.leading source ⟨epsilon, large⟩ state = (some found, after) := by
  obtain ⟨stopped, passed⟩ := Prod.mk.inj h
  exact Prod.ext (powerIterate_mono more stopped) passed

namespace Deflation
variable {limits : PowerLimits α} {state : σ} {a : Mat α n m} {f g : SingularFactors α n m k}
  {d : Deflation σ α n m k}

theorem step_mono (more : small ≤ large) {c : Fin k}
    (done : (step source ⟨epsilon, small⟩ d c).failed = none) :
    step source ⟨epsilon, large⟩ d c = step source ⟨epsilon, small⟩ d c := by
  have before := (step_finds done).1
  unfold step at done ⊢
  simp only [before, Option.isSome_none, Bool.false_eq_true, if_false] at done ⊢
  split at done
  · rename_i tall
    simp only [if_pos tall]
    split at done
    · rename_i found after here
      simp only [Mat.leading_mono more here]
    · cases done
  · rename_i wide
    simp only [if_neg wide]
    split at done
    · rename_i found after here
      simp only [Mat.leading_mono more here]
    · cases done

/-- A step that fails leaves the factors alone. -/
theorem step_fails (source : Source σ α) (limits : PowerLimits α) (c : Fin k)
    (before : d.failed = none) :
    (step source limits d c).failed = none ∨
      (step source limits d c).failed = some c ∧ (step source limits d c).factors = d.factors := by
  unfold step
  rw [before, Option.isSome_none, if_neg Bool.false_ne_true]
  split
  · split
    · exact Or.inl rfl
    · exact Or.inr ⟨rfl, rfl⟩
  · split
    · exact Or.inl rfl
    · exact Or.inr ⟨rfl, rfl⟩

theorem step_of_failed {c failed : Fin k} (before : d.failed = some failed) :
    step source limits d c = d := by
  rw [step, before, Option.isSome_some, if_pos rfl]

theorem triplet_step_of_ne {c e : Fin k} (apart : e ≠ c) :
    (step source limits d c).factors.triplet e = d.factors.triplet e := by
  cases before : d.failed with
  | some failed => rw [step_of_failed before]
  | none =>
      rcases step_fails source limits c before with done | ⟨_, same⟩
      · obtain ⟨_, t, after, halt, iterations, _, same⟩ := step_finds done
        rw [same, accept, SingularFactors.triplet_record, Function.update_of_ne apart]
      · rw [same]

/-- No component is written before its turn. -/
theorem triplet_stage_of_le {count : Nat} (enough : count ≤ k) {e : Fin k} (turn : count ≤ e) :
    (stage source limits state a f count).factors.triplet e = f.triplet e := by
  induction count with
  | zero => rfl
  | succ count ih =>
      let c : Fin k := ⟨count, enough⟩
      have apart : e ≠ c := Fin.ne_of_gt turn
      rw [stage_succ state a f c, triplet_step_of_ne apart]
      exact ih (Nat.le_of_succ_le enough) (Nat.le_of_succ_le turn)

/-- A component is never written again after its turn. -/
theorem triplet_stage_of_lt {count later : Nat} (enough : later ≤ k) (order : count ≤ later)
    {e : Fin k} (past : e < count) :
    (stage source limits state a f later).factors.triplet e =
      (stage source limits state a f count).factors.triplet e := by
  induction order with
  | refl => rfl
  | @step later order ih =>
      let c : Fin k := ⟨later, enough⟩
      have apart : e ≠ c := Fin.ne_of_lt (Nat.lt_of_lt_of_le past order)
      rw [stage_succ state a f c, triplet_step_of_ne apart]
      exact ih (Nat.le_of_succ_le enough)

theorem failed_stage_of_le {count later : Nat} (enough : later ≤ k) (order : count ≤ later)
    (done : (stage source limits state a f later).failed = none) :
    (stage source limits state a f count).failed = none := by
  induction order with
  | refl => exact done
  | @step later order ih =>
      exact ih (Nat.le_of_succ_le enough) (stage_finds enough done).1

/-- A decomposition that has failed stood well before the component that failed, and its
factors have not changed since. -/
theorem stage_of_failed {count : Nat} (enough : count ≤ k) {c : Fin k}
    (failed : (stage source limits state a f count).failed = some c) :
    (stage source limits state a f c).failed = none ∧
      (stage source limits state a f (c + 1)).failed = some c ∧
      (stage source limits state a f count).factors =
        (stage source limits state a f c).factors := by
  induction count with
  | zero => cases failed
  | succ count ih =>
      let last : Fin k := ⟨count, enough⟩
      have next : stage source limits state a f (count + 1) =
          step source limits (stage source limits state a f count) last := stage_succ state a f last
      cases before : (stage source limits state a f count).failed with
      | some earlier =>
          rw [next, step_of_failed before] at failed ⊢
          exact ih (Nat.le_of_succ_le enough) failed
      | none =>
          rcases step_fails source limits last before with done | ⟨here, same⟩
          · rw [next, done] at failed
            cases failed
          · obtain rfl : last = c := Option.some.inj (here.symm.trans (next ▸ failed))
            exact ⟨before, failed, next ▸ same⟩

/-- As long as the smaller budget suffices, the larger one makes no difference. -/
theorem stage_mono (more : small ≤ large) {count : Nat} (enough : count ≤ k)
    (done : (stage source ⟨epsilon, small⟩ state a f count).failed = none) :
    stage source ⟨epsilon, large⟩ state a f count =
      stage source ⟨epsilon, small⟩ state a f count := by
  induction count with
  | zero => rfl
  | succ count ih =>
      let c : Fin k := ⟨count, enough⟩
      have before := ih (Nat.le_of_succ_le enough) (stage_finds enough done).1
      rw [stage_succ state a f c] at done
      rw [stage_succ state a f c, stage_succ state a f c, before]
      exact step_mono more done

theorem run_mono (more : small ≤ large)
    (done : (run source ⟨epsilon, small⟩ state a f).failed = none) :
    run source ⟨epsilon, large⟩ state a f = run source ⟨epsilon, small⟩ state a f := by
  rw [← stage_all] at done
  rw [← stage_all, ← stage_all]
  exact stage_mono more (Nat.le_refl k) done

/-- A run that fails has written the components before the one that failed, and no others. -/
theorem triplet_run_of_failed {c e : Fin k} (turn : c ≤ e)
    (failed : (run source limits state a f).failed = some c) :
    (run source limits state a f).factors.triplet e = f.triplet e := by
  rw [← stage_all] at failed ⊢
  obtain ⟨_, _, same⟩ := stage_of_failed (Nat.le_refl k) failed
  rw [same]
  exact triplet_stage_of_le (Nat.le_of_lt c.isLt) turn

/-- Under a larger budget and over other factors, a run finds at least the same components. -/
theorem run_extends (more : small ≤ large) {c : Fin k}
    (failed : (run source ⟨epsilon, small⟩ state a f).failed = some c)
    (g : SingularFactors α n m k) :
    (∀ e < c, (run source ⟨epsilon, large⟩ state a g).factors.triplet e =
      (run source ⟨epsilon, small⟩ state a f).factors.triplet e) ∧
    ∀ c', (run source ⟨epsilon, large⟩ state a g).failed = some c' → c ≤ c' := by
  rw [← stage_all] at failed
  obtain ⟨good, _, same⟩ := stage_of_failed (Nat.le_refl k) failed
  have before : c ≤ k := Nat.le_of_lt c.isLt
  -- Up to this component the runs are the same, apart from what the factors held before.
  have together := stage_mono more before good
  have alike : Alike c (stage source ⟨epsilon, large⟩ state a f c)
      (stage source ⟨epsilon, large⟩ state a g c) := alike_stage state a f g before
  rw [together] at alike
  rw [← stage_all, ← stage_all]
  constructor
  · intro e less
    rw [triplet_stage_of_lt (Nat.le_refl k) before less, ← alike.triplet_eq good e less, same]
  · intro c' failed'
    obtain ⟨_, here, _⟩ := stage_of_failed (Nat.le_refl k) failed'
    by_contra less
    have done := failed_stage_of_le before (Nat.lt_of_not_le less) (alike.failed_eq.symm.trans good)
    rw [here] at done
    cases done

end Deflation
end RowMajor

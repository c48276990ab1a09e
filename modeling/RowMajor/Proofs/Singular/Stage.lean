import Mathlib
import RowMajor.Matrix.SingularValues
import RowMajor.Proofs.Matrix.Algebra

/-! Decompositions step by step, for any scalars: the stages of a decomposition, and the
component that a step which does not fail takes off. -/
namespace RowMajor
variable {α σ : Type} {n m k : Nat}

/-- Draws the same number every time. -/
def Source.constant (x : α) : Source Unit α :=
  ⟨fun state => (x, state)⟩

/-- One of the components that the factors hold. -/
def SingularFactors.triplet (f : SingularFactors α n m k) (c : Fin k) : Triplet α n m :=
  ⟨f.s.get c, f.u.column c, f.v.column c⟩

theorem SingularFactors.triplet_record (f : SingularFactors α n m k) (c : Fin k)
    (t : Triplet α n m) : (f.record c t).triplet = Function.update f.triplet c t := by
  funext d
  by_cases same : d = c
  · subst same
    rw [Function.update_self]
    simp [triplet, record, Mat.column_putColumn, Mat.get_eq]
  · rw [Function.update_of_ne same]
    have apart := Fin.val_ne_of_ne (Ne.symm same)
    simp [triplet, record, Mat.column_putColumn, Mat.get_eq, same, apart]

namespace Deflation
variable [Scalar α] {source : Source σ α} {limits : PowerLimits α}

/-- The decomposition of `a` after some of its components. -/
def stage (source : Source σ α) (limits : PowerLimits α) (state : σ) (a : Mat α n m)
    (factors : SingularFactors α n m k) (count : Nat) : Deflation σ α n m k :=
  loopTo (step source limits) ⟨a, state, factors, [], none⟩ count

theorem stage_all (state : σ) (a : Mat α n m) (factors : SingularFactors α n m k) :
    stage source limits state a factors k = run source limits state a factors :=
  loopTo_all _ _

theorem stage_succ (state : σ) (a : Mat α n m) (factors : SingularFactors α n m k) (c : Fin k) :
    stage source limits state a factors (c + 1) =
      step source limits (stage source limits state a factors c) c :=
  loopTo_succ _ _ c

/-- The next component of a working copy and the state of the source behind it. -/
inductive Finds (source : Source σ α) (limits : PowerLimits α) (d : Deflation σ α n m k) :
    Triplet α n m → σ → Prop
  | right (tall : m < n) {found : PowerRun α m} {state : σ}
      (h : d.work.columnGram.leading source limits d.state = (some found, state)) :
      Finds source limits d (d.work.tripletOfRight found.vector) state
  | left (wide : ¬ m < n) {found : PowerRun α n} {state : σ}
      (h : d.work.rowGram.leading source limits d.state = (some found, state)) :
      Finds source limits d (d.work.tripletOfLeft found.vector) state

/-- A step that has not failed follows steps that have not, and takes a component off. -/
theorem step_finds {d : Deflation σ α n m k} {c : Fin k}
    (h : (step source limits d c).failed = none) :
    d.failed = none ∧ ∃ t state halt iterations,
      Finds source limits d t state ∧
        step source limits d c = d.accept c state t halt iterations := by
  by_cases before : d.failed.isSome
  · rw [step, if_pos before] at h
    rw [h] at before
    cases before
  · refine ⟨Option.not_isSome_iff_eq_none.mp before, ?_⟩
    rw [step, if_neg before] at h ⊢
    by_cases tall : m < n
    · rw [if_pos tall] at h ⊢
      split at h
      · rename_i found state here
        exact ⟨_, state, _, _, .right tall here, rfl⟩
      · cases h
    · rw [if_neg tall] at h ⊢
      split at h
      · rename_i found state here
        exact ⟨_, state, _, _, .left tall here, rfl⟩
      · cases h

/-- A stage that has not failed follows one that has not, with one component more taken off. -/
theorem stage_finds {state : σ} {a : Mat α n m} {factors : SingularFactors α n m k} {count : Nat}
    (enough : count < k)
    (done : (stage source limits state a factors (count + 1)).failed = none) :
    (stage source limits state a factors count).failed = none ∧ ∃ t after halt iterations,
      Finds source limits (stage source limits state a factors count) t after ∧
      stage source limits state a factors (count + 1) =
        (stage source limits state a factors count).accept ⟨count, enough⟩ after t halt
          iterations := by
  rw [stage_succ state a factors ⟨count, enough⟩] at done ⊢
  exact step_finds done

theorem step_of_finds {d : Deflation σ α n m k} (c : Fin k) {t : Triplet α n m} {state : σ}
    (before : d.failed = none) (finds : Finds source limits d t state) :
    ∃ halt iterations, step source limits d c = d.accept c state t halt iterations := by
  rw [step, before, Option.isSome_none, if_neg Bool.false_ne_true]
  cases finds with
  | right tall h =>
      rw [if_pos tall, h]
      exact ⟨_, _, rfl⟩
  | left wide h =>
      rw [if_neg wide, h]
      exact ⟨_, _, rfl⟩

end Deflation
end RowMajor

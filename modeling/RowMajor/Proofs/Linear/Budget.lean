import Mathlib
import RowMajor.Proofs.Linear.Shapes
import RowMajor.Proofs.Singular.Budget

/-! Calls for singular values under different budgets. More iterations never change what a
smaller budget has found; a call that runs out of them leaves the components before the one
that it could not find, and nothing else. -/
namespace RowMajor.Linear
open InPlace (Ends)
variable {α σ : Type} {n m k : Nat}

/-- What the three targets of a decomposition hold. -/
structure HoldFactors (targets : Tensor α × Tensor α × Tensor α) (f : SingularFactors α n m k) :
    Prop where
  u : targets.1.Holds f.u
  s : targets.2.1.HoldsVector f.s
  v : targets.2.2.Holds f.v

/-- Nothing around the three targets has changed. -/
structure AgreeAround (targets after : Tensor α × Tensor α × Tensor α) : Prop where
  u : targets.1.AgreesAround after.1
  s : targets.2.1.AgreesAround after.2.1
  v : targets.2.2.AgreesAround after.2.2

variable {limits : PowerLimits α}

theorem failed_of_decompositionResult {d : Deflation σ α n m k} {c spent : Nat}
    (h : .error (.notConverged c spent) = decompositionResult limits d) :
    spent = limits.maxIterations ∧
      ∃ failed : Fin k, (failed : Nat) = c ∧ d.failed = some failed := by
  rw [decompositionResult] at h
  cases found : d.failed with
  | none =>
      rw [found] at h
      cases h
  | some failed =>
      rw [found] at h
      cases h
      exact ⟨rfl, failed, rfl, rfl⟩

variable [Scalar α] {source : Source σ α} {state : σ} {epsilon : α} {a : Tensor α}

/-- A call that is not refused for its shapes has run over what its targets held, and has
reported on it. -/
theorem exists_reported_run {targets after : Tensor α × Tensor α × Tensor α} {log later : Log}
    {result : Except Error Unit} (h : a.shape = [n, m])
    (other : ¬ IsShapeRefusal result)
    (ends : Ends (singularInto source state limits a) targets log result after later) :
    ∃ f : SingularFactors α n m (min n m), HoldFactors targets f ∧
      result = decompositionResult limits (Deflation.run source limits state (a.matrix h) f) ∧
      HoldFactors after (Deflation.run source limits state (a.matrix h) f).factors ∧
      AgreeAround targets after ∧
      later = log ++ haltEvents (Deflation.run source limits state (a.matrix h) f) := by
  obtain ⟨u, s, v⟩ := targets
  have fits := (singularInto_refusesUnless source state limits a u s v).fits_of_ends ends other
  obtain ⟨n', m', h', hu, hs, hv⟩ := fits
  obtain ⟨rfl, rfl⟩ : n' = n ∧ m' = m := by simpa using h'.symm.trans h
  obtain ⟨_, _, same, rfl, events⟩ := (singularInto_ends_iff h hu hs hv rfl).mp ends
  refine ⟨_, ⟨⟨hu, rfl⟩, ⟨hs, rfl⟩, ⟨hv, rfl⟩⟩, same, ?_, ?_, events⟩
  · exact ⟨u.holds_withMatrix hu _, s.holdsVector_withVector hs _, v.holds_withMatrix hv _⟩
  · exact ⟨u.agreesAround_splice 0 _, s.agreesAround_splice 0 _, v.agreesAround_splice 0 _⟩

theorem exists_run {targets after : Tensor α × Tensor α × Tensor α} {log later : Log}
    {result : Except Error Unit} (h : a.shape = [n, m])
    (other : ¬ IsShapeRefusal result)
    (ends : Ends (singularInto source state limits a) targets log result after later) :
    ∃ f : SingularFactors α n m (min n m), HoldFactors targets f ∧
      result = decompositionResult limits (Deflation.run source limits state (a.matrix h) f) ∧
      HoldFactors after (Deflation.run source limits state (a.matrix h) f).factors ∧
      AgreeAround targets after := by
  obtain ⟨f, held, same, holds, around, _⟩ := exists_reported_run h other ends
  exact ⟨f, held, same, holds, around⟩

/-- A call that stopped at component `c` has found what any call with at least its budget
finds, and no such call stops earlier. -/
structure StopsAt (source : Source σ α) (state : σ) (epsilon : α) (a : Tensor α) (budget c : Nat)
    (targets after : Tensor α × Tensor α × Tensor α)
    (held found : SingularFactors α n m k) : Prop where
  inside : c < k
  before : HoldFactors targets held
  holds : HoldFactors after found
  around : AgreeAround targets after
  kept : ∀ e : Fin k, c ≤ e → found.triplet e = held.triplet e
  shared : ∀ larger, budget ≤ larger → ∀ {other final log later},
    Ends (singularInto source state ⟨epsilon, larger⟩ a) other log (.ok ()) final later →
      ∃ all : SingularFactors α n m k, HoldFactors final all ∧
        ∀ e : Fin k, e < c → all.triplet e = found.triplet e
  later : ∀ larger, budget ≤ larger → ∀ {other final log later c' spent},
    Ends (singularInto source state ⟨epsilon, larger⟩ a) other log
      (.error (.notConverged c' spent)) final later → c ≤ c'

theorem stopsAt_of_ends {budget c spent : Nat} {targets after : Tensor α × Tensor α × Tensor α}
    {log later : Log} (ends : Ends (singularInto source state ⟨epsilon, budget⟩ a) targets log
      (.error (.notConverged c spent)) after later) :
    spent = budget ∧ ∃ (n m : Nat) (held found : SingularFactors α n m (min n m)),
      StopsAt source state epsilon a budget c targets after held found := by
  obtain ⟨n, m, h, _⟩ := (singularInto_refusesUnless source state ⟨epsilon, budget⟩ a
    targets.1 targets.2.1 targets.2.2).fits_of_ends ends id
  obtain ⟨held, before, result, holds, around⟩ := exists_run h id ends
  obtain ⟨spent, failed, rfl, failing⟩ := failed_of_decompositionResult result
  refine ⟨spent, n, m, held, _, failed.isLt, before, holds, around, ?_, ?_, ?_⟩
  · exact fun e turn => Deflation.triplet_run_of_failed turn failing
  · intro larger more _ _ _ _ succeeds
    obtain ⟨g, _, _, holds', _⟩ := exists_run h id succeeds
    exact ⟨_, holds', (Deflation.run_extends more failing g).1⟩
  · intro larger more _ _ _ _ c' spent' stops
    obtain ⟨g, _, result', _, _⟩ := exists_run h id stops
    obtain ⟨_, failed', rfl, failing'⟩ := failed_of_decompositionResult result'
    exact (Deflation.run_extends more failing g).2 failed' failing'

/-- What succeeds under a budget succeeds in the same way under a larger one, and what fails
has left the components that it found, and those only. -/
theorem singularInto_budget (source : Source σ α) (state : σ) (epsilon : α) (a : Tensor α)
    (targets : Tensor α × Tensor α × Tensor α) {small large : Nat} (more : small ≤ large) :
    (∀ {log after later},
      Ends (singularInto source state ⟨epsilon, small⟩ a) targets log (.ok ()) after later →
        Ends (singularInto source state ⟨epsilon, large⟩ a) targets log (.ok ()) after later) ∧
      ∀ {log after later c spent},
        Ends (singularInto source state ⟨epsilon, small⟩ a) targets log
          (.error (.notConverged c spent)) after later →
        spent = small ∧ ∃ (n m : Nat) (held found : SingularFactors α n m (min n m)),
          StopsAt source state epsilon a small c targets after held found := by
  constructor
  · intro log after later ends
    obtain ⟨u, s, v⟩ := targets
    obtain ⟨n, m, h, hu, hs, hv⟩ := (singularInto_refusesUnless source state ⟨epsilon, small⟩ a
      u s v).fits_of_ends ends id
    obtain ⟨rows, cols, result, written, events⟩ := (singularInto_ends_iff h hu hs hv rfl).mp ends
    have done := decompositionResult_eq_ok.mp result.symm
    have same := Deflation.run_mono (f := ⟨u.matrix hu, s.vector hs, v.matrix hv⟩) more done
    exact (singularInto_ends_iff h hu hs hv same).mpr
      ⟨rows, cols, (decompositionResult_eq_ok.mpr done).symm, written, events⟩
  · exact stopsAt_of_ends

/-- Two singular values, one twice the other. -/
def twoValues : Tensor ℚ :=
  ⟨squareLayout, #[2, 0, 0, 1], 0, by decide⟩

def twoNumbers : Tensor ℚ :=
  ⟨pairLayout, #[7, 7], 0, by decide⟩

/-- Draws the numbers of a list. -/
def listed : Source (List ℚ) ℚ where
  draw
    | [] => (0, [])
    | x :: rest => (x, rest)

/-- The first start vector is a singular vector, the second one needs a second iteration. -/
def twoValuesRun (budget : Nat) : Deflation (List ℚ) ℚ 2 2 (min 2 2) :=
  Deflation.run listed ⟨1 / 10, budget⟩ [1, 0, 3, 4] (twoValues.matrix rfl)
    ⟨twoValues.matrix rfl, twoNumbers.vector rfl, twoValues.matrix rfl⟩

/-- One iteration does not suffice for the second component. Two do, and five do the same. -/
theorem singularInto_budget_twoValues :
    let call (budget : Nat) := singularInto listed [1, 0, 3, 4] ⟨1 / 10, budget⟩ twoValues
    let targets := (twoValues, twoNumbers, twoValues)
    ∃ stopped after later last,
      Ends (call 1) targets #[] (.error (.notConverged 1 1)) stopped later ∧
      Ends (call 2) targets #[] (.ok ()) after last ∧
      Ends (call 5) targets #[] (.ok ()) after last ∧
      ∃ (n m : Nat) (held found : SingularFactors ℚ n m (min n m)),
        StopsAt listed [1, 0, 3, 4] (1 / 10) twoValues 1 1 targets stopped held found := by
  intro call targets
  have ends (budget : Nat) (result : Except Error Unit)
      (same : result = decompositionResult ⟨1 / 10, budget⟩ (twoValuesRun budget)) :
      ∃ after later, Ends (call budget) targets #[] result after later :=
    ⟨_, _, (singularInto_ends_iff rfl rfl rfl rfl rfl).mpr
      ⟨by decide, by decide, same, rfl, rfl⟩⟩
  have fails : (twoValuesRun 1).failed = some ⟨1, by decide⟩ := by decide +kernel
  have succeeds : (twoValuesRun 2).failed = none := by decide +kernel
  obtain ⟨stopped, later, stops⟩ := ends 1 (.error (.notConverged 1 1)) (by
    rw [decompositionResult, fails])
  obtain ⟨after, last, done⟩ := ends 2 (.ok ()) (decompositionResult_eq_ok.mpr succeeds).symm
  refine ⟨stopped, after, later, last, stops, done, ?_, ?_⟩
  · exact (singularInto_budget _ _ _ _ targets (by decide : 2 ≤ 5)).1 done
  · exact ((singularInto_budget _ _ _ _ targets (by decide : 1 ≤ 2)).2 stops).2

end RowMajor.Linear

import Mathlib
import RowMajor.Proofs.Singular.Budget
import RowMajor.Proofs.Singular.Decomposition
import RowMajor.Proofs.Singular.Gain

/-! The power iterations behind a finished decomposition. Each of its components is the one
that the iteration on the working copy of its turn has led to, and is reported with the number
of iterations that this one took. -/
namespace RowMajor.Deflation
variable {α σ : Type} {n m k : Nat}

section Reports
variable [Scalar α] {source : Source σ α} {limits : PowerLimits α}
  {state : σ} {a : Mat α n m} {f : SingularFactors α n m k} {d : Deflation σ α n m k} {c : Fin k}

/-- Every iteration is counted, also the last one. -/
theorem lt_iterations {b : Mat α n n} {epsilon : α} {budget finished : Nat}
    {x : Vector α n} {found : PowerRun α n}
    (h : powerIterate b epsilon budget finished x = some found) : finished < found.iterations := by
  induction budget generalizing finished x with
  | zero => cases h
  | succ budget ih =>
      rw [powerIterate] at h
      dsimp only at h
      split at h
      · cases h
        exact Nat.lt_succ_self finished
      · split at h
        · cases h
          exact Nat.lt_succ_self finished
        · exact Nat.lt_of_succ_lt (ih h)

theorem step_of_led (wide : ¬ m < n) (before : d.failed = none) (c : Fin k) {found : PowerRun α n}
    {after : σ} (led : d.work.rowGram.leading source limits d.state = (some found, after)) :
    step source limits d c =
      d.accept c after (d.work.tripletOfLeft found.vector) found.halt found.iterations := by
  rw [step, before, Option.isSome_none, if_neg Bool.false_ne_true, if_neg wide, led]

theorem led_of_step (wide : ¬ m < n) (done : (step source limits d c).failed = none) :
    d.failed = none ∧ ∃ found after,
      d.work.rowGram.leading source limits d.state = (some found, after) := by
  have before := (step_finds done).1
  refine ⟨before, ?_⟩
  rw [step, before, Option.isSome_none, if_neg Bool.false_ne_true, if_neg wide] at done
  split at done
  · rename_i found after here
    exact ⟨found, after, here⟩
  · cases done

/-- The first stage, if the iteration on the matrix itself succeeds. -/
theorem stage_one_of_led (wide : ¬ m < n) {f : SingularFactors α n m (k + 1)}
    {found : PowerRun α n} {after : σ}
    (led : a.rowGram.leading source limits state = (some found, after)) :
    stage source limits state a f 1 = accept ⟨a, state, f, [], none⟩ 0 after
      (a.tripletOfLeft found.vector) found.halt found.iterations := by
  have next : stage source limits state a f 1 =
      step source limits ⟨a, state, f, [], none⟩ (0 : Fin (k + 1)) := stage_succ state a f 0
  rw [next, step_of_led wide rfl 0 led]

/-- A run in which every iteration succeeds does not fail. -/
theorem failed_run_of_led (wide : ¬ m < n) (led : ∀ c : Fin k, ∃ found after,
    (stage source limits state a f c).work.rowGram.leading source limits
      (stage source limits state a f c).state = (some found, after)) :
    (run source limits state a f).failed = none := by
  have good {count : Nat} (enough : count ≤ k) :
      (stage source limits state a f count).failed = none := by
    induction count with
    | zero => rfl
    | succ count ih =>
        let c : Fin k := ⟨count, enough⟩
        obtain ⟨found, after, here⟩ := led c
        rw [stage_succ state a f c, step_of_led wide (ih (Nat.le_of_succ_le enough)) c here]
        rfl
  rw [← stage_all]
  exact good (Nat.le_refl k)

/-- A run for two components, the second one found in what the first one leaves. -/
theorem failed_run_of_two_led (wide : ¬ m < n) {f : SingularFactors α n m 2}
    {found found' : PowerRun α n} {middle after : σ}
    (first : a.rowGram.leading source limits state = (some found, middle))
    (second : (a.deflate (a.tripletOfLeft found.vector)).rowGram.leading source limits middle =
      (some found', after)) :
    (run source limits state a f).failed = none := by
  refine failed_run_of_led wide fun c => ?_
  match c with
  | 0 => exact ⟨found, middle, first⟩
  | 1 =>
      have one := stage_one_of_led (f := f) wide first
      refine ⟨found', after, ?_⟩
      change (stage source limits state a f 1).work.rowGram.leading source limits
        (stage source limits state a f 1).state = (some found', after)
      rw [one]
      exact second

theorem length_halts_stage {count : Nat} (enough : count ≤ k)
    (done : (stage source limits state a f count).failed = none) :
    (stage source limits state a f count).halts.length = count := by
  induction count with
  | zero => rfl
  | succ count ih =>
      obtain ⟨before, _, _, _, _, _, same⟩ := stage_finds enough done
      rw [same, accept, List.length_append, ih (Nat.le_of_succ_le enough) before]
      rfl

/-- No report is ever taken back. -/
theorem halts_stage_prefix {count later : Nat} (enough : later ≤ k) (order : count ≤ later)
    (done : (stage source limits state a f later).failed = none) :
    (stage source limits state a f count).halts <+:
      (stage source limits state a f later).halts := by
  induction order with
  | refl => exact List.prefix_rfl
  | @step later order ih =>
      obtain ⟨before, _, _, _, _, _, same⟩ := stage_finds enough done
      rw [same]
      exact (ih (Nat.le_of_succ_le enough) before).trans (List.prefix_append _ _)

/-- Component `c` of a run has been found from this iteration, which has left the working copy
of the next stage and a report. -/
structure FoundBy (source : Source σ α) (limits : PowerLimits α) (state : σ) (a : Mat α n m)
    (f : SingularFactors α n m k) (c : Fin k) (found : PowerRun α n) : Prop where
  led : ((stage source limits state a f c).work.rowGram.leading source limits
    (stage source limits state a f c).state).1 = some found
  work : (stage source limits state a f (c + 1)).work =
    (stage source limits state a f c).work.deflate
      ((stage source limits state a f c).work.tripletOfLeft found.vector)
  triplet : (run source limits state a f).factors.triplet c =
    (stage source limits state a f c).work.tripletOfLeft found.vector
  halt : (run source limits state a f).halts[(c : Nat)]? = some (found.halt, found.iterations)

theorem foundBy_of_wide (wide : ¬ m < n) (done : (run source limits state a f).failed = none)
    (c : Fin k) : ∃ found, FoundBy source limits state a f c found := by
  rw [← stage_all] at done
  have turn : c + 1 ≤ k := c.isLt
  have good := failed_stage_of_le (Nat.le_refl k) turn done
  have next : stage source limits state a f (c + 1) =
      step source limits (stage source limits state a f c) c := stage_succ state a f c
  rw [next] at good
  obtain ⟨before, found, after, led⟩ := led_of_step wide good
  have same := step_of_led wide before c led
  refine ⟨found, congrArg Prod.fst led, ?_, ?_, ?_⟩
  · rw [next, same]
    rfl
  · rw [← stage_all, triplet_stage_of_lt (Nat.le_refl k) turn (Nat.lt_succ_self c), next, same,
      accept, SingularFactors.triplet_record, Function.update_self]
  · have kept := halts_stage_prefix (Nat.le_refl k) turn done
    have length := length_halts_stage (Nat.le_of_lt c.isLt) before
    rw [next, same, accept] at kept
    have inside : (c : Nat) < ((stage source limits state a f c).halts ++
        [(found.halt, found.iterations)]).length := by
      rw [List.length_append, length]
      exact Nat.lt_succ_self c
    rw [← stage_all, List.prefix_iff_getElem?.mp kept c inside]
    simp [length]

/-- The first report of a run is about the iteration on the matrix itself. -/
theorem halts_zero_of_led (wide : ¬ m < n) {f : SingularFactors α n m (k + 1)}
    (done : (run source limits state a f).failed = none) {found : PowerRun α n} {after : σ}
    (led : a.rowGram.leading source limits state = (some found, after)) :
    (run source limits state a f).halts[0]? = some (found.halt, found.iterations) := by
  obtain ⟨found', here⟩ := foundBy_of_wide wide done 0
  have same : some found = some found' := (congrArg Prod.fst led).symm.trans here.led
  cases same
  exact here.halt

end Reports

variable {source : Source σ ℝ} {limits : PowerLimits ℝ} {state : σ} {a : Mat ℝ n m}
  {f : SingularFactors ℝ n m k} {c : Fin k} {found : PowerRun ℝ n}

theorem FoundBy.weight (h : FoundBy source limits state a f c found) :
    (run source limits state a f).factors.s.get c =
      √(gain (stage source limits state a f c).work.toMatrix found.vector.get) :=
  (congrArg Triplet.sigma h.triplet).trans (Mat.sigma_tripletOfLeft _ _)

/-- No component weighs more than the working copy that it is found in can stretch a vector. -/
theorem FoundBy.weight_le (h : FoundBy source limits state a f c found) {bound : ℝ}
    (nonneg : 0 ≤ bound)
    (stretches : StretchesAtMost (stage source limits state a f c).work.toMatrix bound) :
    (run source limits state a f).factors.s.get c ≤ bound := by
  rw [h.weight]
  rcases Mat.leading_inRange (Prod.ext h.led rfl) with ⟨_, outside⟩ | inside
  · rwa [gain, outside, dotProduct_zero, Real.sqrt_zero]
  · exact stretches.of_unit inside.1

/-- A tall matrix is decomposed as its transposed. -/
theorem run_swap (tall : m < n) (source : Source σ ℝ) (limits : PowerLimits ℝ) (state : σ)
    (a : Mat ℝ n m) (f : SingularFactors ℝ n m k) :
    (run source limits state a f).swap = run source limits state a.transpose f.swap := by
  rw [← stage_all, ← stage_all]
  exact swap_stage tall source limits state a f k

theorem failed_run_transpose (tall : m < n) (done : (run source limits state a f).failed = none) :
    (run source limits state a.transpose f.swap).failed = none := by
  rw [← run_swap tall]
  exact done

end RowMajor.Deflation

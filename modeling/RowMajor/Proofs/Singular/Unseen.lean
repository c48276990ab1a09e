import Mathlib
import RowMajor.Proofs.Singular.Stage
import RowMajor.Proofs.Singular.Usable

/-! Runs that find nothing. As long as no vector that the power iteration ends in has an
image of usable length, the working copy stays the matrix itself, and every component
is sought in it again. -/
namespace RowMajor
variable {α : Type} [Scalar α] {n m k : Nat} {σ : Type}

/-- The state of a source behind as many vectors. -/
def Source.past (source : Source σ α) (length : Nat) (state : σ) : Nat → σ
  | 0 => state
  | count + 1 => (source.vector length (source.past length state count)).2

/-- The power iteration from here ends in a vector whose image has no usable length. -/
inductive Mat.Misses (source : Source σ α) (limits : PowerLimits α) (a : Mat α n m)
    (state : σ) : Prop
  | right (tall : m < n) {found : PowerRun α m}
      (h : (a.columnGram.leading source limits state).1 = some found)
      (unusable : ¬ Usable (a.image found.vector)) : Misses source limits a state
  | left (wide : ¬ m < n) {found : PowerRun α n}
      (h : (a.rowGram.leading source limits state).1 = some found)
      (unusable : ¬ Usable (a.applyTransposed found.vector)) : Misses source limits a state

namespace Deflation
variable {source : Source σ α} {limits : PowerLimits α} {d : Deflation σ α n m k}

/-- The source goes on by a vector of the shorter side, whatever comes of it. -/
theorem Finds.past {t : Triplet α n m} {after : σ} (h : Finds source limits d t after) :
    after = (source.vector (min n m) d.state).2 := by
  cases h with
  | right tall h =>
      rw [Nat.min_eq_right (Nat.le_of_lt tall)]
      exact (congrArg Prod.snd h).symm
  | left wide h =>
      rw [Nat.min_eq_left (Nat.not_lt.mp wide)]
      exact (congrArg Prod.snd h).symm

variable [LawfulZero α]

theorem Finds.misses {t : Triplet α n m} {after : σ} (h : Finds source limits d t after)
    (weightless : Scalar.isZero t.sigma = true) : d.work.Misses source limits d.state := by
  cases h with
  | right tall h =>
      refine .right tall (congrArg Prod.fst h) fun usable => ?_
      rw [Mat.tripletOfRight_usable usable] at weightless
      exact usable.not_isZero weightless
  | left wide h =>
      refine .left wide (congrArg Prod.fst h) fun usable => ?_
      rw [Mat.tripletOfLeft_usable usable] at weightless
      exact usable.not_isZero weightless

theorem finds_blank (h : d.work.Misses source limits d.state) :
    Finds source limits d .blank (source.vector (min n m) d.state).2 := by
  cases h with
  | right tall h unusable =>
      rw [← Mat.tripletOfRight_unusable unusable, Nat.min_eq_right (Nat.le_of_lt tall)]
      exact .right tall (Prod.ext h rfl)
  | left wide h unusable =>
      rw [← Mat.tripletOfLeft_unusable unusable, Nat.min_eq_left (Nat.not_lt.mp wide)]
      exact .left wide (Prod.ext h rfl)

/-- After `count` components the copy is still the matrix, and all of them are blank. -/
structure Untouched (source : Source σ α) (state : σ) (a : Mat α n m)
    (d : Deflation σ α n m k) (count : Nat) : Prop where
  failed : d.failed = none
  work : d.work = a
  state : d.state = source.past (min n m) state count
  blank : ∀ c : Fin k, c < count → d.factors.triplet c = .blank

theorem Untouched.step {state : σ} {a : Mat α n m} {c : Fin k}
    (h : Untouched source state a d c)
    (misses : a.Misses source limits (source.past (min n m) state c)) :
    Untouched source state a (step source limits d c) (c + 1) := by
  have finds := finds_blank (h.work ▸ h.state ▸ misses : d.work.Misses source limits d.state)
  obtain ⟨halt, iterations, same⟩ := step_of_finds c h.failed finds
  rw [same]
  constructor
  · rfl
  · exact (Mat.deflate_blank d.work).trans h.work
  · exact congrArg (fun state => (source.vector (min n m) state).2) h.state
  · intro e before
    change (d.factors.record c .blank).triplet e = .blank
    rw [SingularFactors.triplet_record]
    by_cases new : e = c
    · rw [new, Function.update_self]
    · rw [Function.update_of_ne new]
      have := Fin.val_ne_of_ne new
      exact h.blank e (by omega)

variable {state : σ} {a : Mat α n m} {factors : SingularFactors α n m k}

theorem untouched_stage (factors : SingularFactors α n m k) {count : Nat} (enough : count ≤ k)
    (misses : ∀ c < count, a.Misses source limits (source.past (min n m) state c)) :
    Untouched source state a (stage source limits state a factors count) count := by
  induction count with
  | zero => exact ⟨rfl, rfl, rfl, fun c before => (Nat.not_lt_zero c before).elim⟩
  | succ count ih =>
      have before := ih (Nat.le_of_succ_le enough) fun c h => misses c (Nat.lt_succ_of_lt h)
      rw [stage_succ state a factors ⟨count, enough⟩]
      exact before.step (misses count (Nat.lt_succ_self count))

/-- A component is written once, so that a run of zeros was one at every stage. -/
theorem misses_of_stage {count : Nat} (enough : count ≤ k)
    (done : (stage source limits state a factors count).failed = none)
    (zeros : ∀ c : Fin k, c < count →
      Scalar.isZero ((stage source limits state a factors count).factors.triplet c).sigma = true) :
    ∀ c < count, a.Misses source limits (source.past (min n m) state c) := by
  induction count with
  | zero => exact fun c before => (Nat.not_lt_zero c before).elim
  | succ count ih =>
      let c : Fin k := ⟨count, enough⟩
      obtain ⟨before, t, _, _, _, finds, same⟩ := stage_finds enough done
      rw [same, accept, SingularFactors.triplet_record] at zeros
      -- This step writes another component, so that the earlier weights were zero before it.
      have earlier := ih (Nat.le_of_succ_le enough) before fun e less => by
        have here := zeros e (Nat.lt_succ_of_lt less)
        rwa [Function.update_of_ne (Fin.ne_of_lt less)] at here
      have still := untouched_stage factors (Nat.le_of_succ_le enough) earlier
      have last := zeros c (Nat.lt_succ_self count)
      rw [Function.update_self] at last
      have misses := finds.misses last
      rw [still.work, still.state] at misses
      intro e less
      rcases Nat.lt_succ_iff_lt_or_eq.mp less with less | rfl
      · exact earlier e less
      · exact misses

/-- A run succeeds with no weight at all if and only if every component is missed in the
matrix itself. -/
theorem run_weightless_iff :
    ((run source limits state a factors).failed = none ∧ ∀ c : Fin k,
        Scalar.isZero ((run source limits state a factors).factors.s.get c) = true) ↔
      ∀ c < k, a.Misses source limits (source.past (min n m) state c) := by
  rw [← stage_all]
  constructor
  · rintro ⟨done, zeros⟩
    exact misses_of_stage (Nat.le_refl k) done fun c _ => zeros c
  · intro misses
    have still := untouched_stage factors (Nat.le_refl k) misses
    refine ⟨still.failed, fun c => ?_⟩
    have weight := congrArg Triplet.sigma (still.blank c c.isLt)
    exact (congrArg Scalar.isZero weight).trans LawfulZero.isZero_zero

end Deflation
end RowMajor

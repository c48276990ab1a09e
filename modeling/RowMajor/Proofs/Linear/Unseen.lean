import Mathlib
import RowMajor.Proofs.Linear.Outcome
import RowMajor.Proofs.Linear.Singular
import RowMajor.Proofs.Singular.Unseen

/-! Singular values of floats. A matrix whose squares leave the range of floats can be
reported as if it were zero; the condition for this is exact. -/
namespace RowMajor.Linear
open InPlace (Ends)
variable {n m : Nat} {σ : Type}

/-- A call reports nothing but zero weights if and only if each of its power iterations
ends, within its budget, in a vector whose image under the matrix itself has a computed
length that is zero or not finite. -/
theorem singularInto_weightless_iff {source : Source σ Float} {state : σ}
    {limits : PowerLimits Float} {t u s v : Tensor Float} {a : Mat Float n m} (ht : t.Holds a)
    (hu : u.shape = [n, min n m]) (hs : s.shape = [min n m]) (hv : v.shape = [m, min n m])
    (log : Log) :
    (∃ (u' s' v' : Tensor Float) (later : Log) (weights : Vector Float (min n m)),
      Ends (singularInto source state limits t) (u, s, v) log (.ok ()) (u', s', v') later ∧
      s'.HoldsVector weights ∧ ∀ c, Scalar.isZero (weights.get c) = true) ↔
    n < Word.room ∧ m < Word.room ∧
      ∀ c < min n m, a.Misses source limits (source.past (min n m) state c) := by
  obtain ⟨h, rfl⟩ := ht
  constructor
  · rintro ⟨u', s', v', later, weights, ends, holds, zeros⟩
    obtain ⟨rows, cols, _⟩ := (singularInto_ends_iff h hu hs hv rfl).mp ends
    obtain ⟨done, _, written, _⟩ := run_of_ends h hu hs hv rfl ends
    rw [holds.unique written] at zeros
    exact ⟨rows, cols, Deflation.run_weightless_iff.mp ⟨done, zeros⟩⟩
  · rintro ⟨rows, cols, misses⟩
    obtain ⟨done, zeros⟩ := Deflation.run_weightless_iff.mpr misses
    refine ⟨_, _, _, _, _, (singularInto_ends_iff h hu hs hv rfl).mpr ⟨rows, cols, ?_, rfl, rfl⟩,
      s.holdsVector_withVector hs _, zeros⟩
    rw [decompositionResult, done]

/-- Its square is beyond the largest float. -/
def hugeEntry : Tensor Float :=
  ⟨entryLayout, #[.ofBits 0x6570000000000000], 0, by decide⟩

def oneWeight : Tensor Float :=
  ⟨numberLayout, #[0], 0, by decide⟩

theorem hugeEntry_leads : ((hugeEntry.matrix (rfl : _ = [1, 1])).rowGram.leading (.constant 1)
    SingularConfig.standard.limits ()).1.isSome := by
  decide +kernel

theorem hugeEntry_misses : (hugeEntry.matrix (rfl : _ = [1, 1])).Misses (.constant 1)
    SingularConfig.standard.limits () := by
  apply Mat.Misses.left (by decide) (Option.some_get hugeEntry_leads).symm
  unfold Usable
  decide +kernel

theorem singularInto_weightless_iff_hugeEntry :
    ∃ (u s v : Tensor Float) (later : Log) (weights : Vector Float 1),
      Ends (singularInto (.constant 1) () SingularConfig.standard.limits hugeEntry)
        (hugeEntry, oneWeight, hugeEntry) #[] (.ok ()) (u, s, v) later ∧
      s.HoldsVector weights ∧ ∀ c, Scalar.isZero (weights.get c) = true := by
  have holds : hugeEntry.Holds (hugeEntry.matrix (rfl : _ = [1, 1])) := ⟨rfl, rfl⟩
  apply (singularInto_weightless_iff holds rfl rfl rfl #[]).mpr
  refine ⟨by decide, by decide, fun c before => ?_⟩
  rw [Nat.lt_one_iff.mp before]
  exact hugeEntry_misses

/-- The number that a finite float stands for. -/
def exactly (x : Float) : ℚ :=
  let parts := Decimal.Binary.ofBits Decimal.binary64 x.toBits.toNat
  let size := (parts.mantissa * 2 ^ parts.exponent.toNat : ℚ) / 2 ^ (-parts.exponent).toNat
  if x.toBits >>> 63 = 1 then -size else size

/-- The matrix is finite and not zero, the exact Gram matrix does not annihilate the start
vector, and yet nothing is found. -/
theorem singularInto_misses_hugeEntry :
    let a : Mat Float 1 1 := hugeEntry.matrix rfl
    let exact : Mat ℚ 1 1 := .ofFn fun i j => exactly (a.entry i j)
    let start : Vector Float 1 := ((Source.constant 1).vector 1 ()).1
    (∀ i j, (a.entry i j).isFinite) ∧ (∃ i j, ¬ Scalar.isZero (a.entry i j)) ∧
      exact.rowGram.apply (start.map exactly) ≠ #v[0] ∧
      ∃ (u s v : Tensor Float) (later : Log),
        Ends (singularInto (.constant 1) () SingularConfig.standard.limits hugeEntry)
          (hugeEntry, oneWeight, hugeEntry) #[] (.ok ()) (u, s, v) later ∧
        s.HoldsVector (#v[0] : Vector Float 1) := by
  refine ⟨by decide +kernel, by decide +kernel, by decide +kernel, ?_⟩
  obtain ⟨done, run, succeeds, weights⟩ : ∃ done : Deflation Unit Float 1 1 (min 1 1),
      Deflation.run (.constant 1) SingularConfig.standard.limits () (hugeEntry.matrix rfl)
        ⟨hugeEntry.matrix rfl, oneWeight.vector rfl, hugeEntry.matrix rfl⟩ = done ∧
      done.failed = none ∧ done.factors.s = #v[0] :=
    ⟨_, rfl, by decide +kernel, by decide +kernel⟩
  refine ⟨_, _, _, _, (singularInto_ends_iff rfl rfl rfl rfl run).mpr
    ⟨by decide, by decide, ?_, rfl, rfl⟩, ?_⟩
  · rw [decompositionResult, succeeds]
  · rw [← weights]
    exact oneWeight.holdsVector_withVector rfl done.factors.s

end RowMajor.Linear

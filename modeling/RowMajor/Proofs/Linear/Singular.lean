import Mathlib
import RowMajor.Linear.Singular
import RowMajor.Proofs.Linear.Outcome
import RowMajor.Proofs.Matrix.Window
import RowMajor.Proofs.Singular.Found
import RowMajor.Proofs.Singular.Overwrite
import RowMajor.Proofs.Tensor.Access

/-! Singular values and vectors of tensors. The operation ends with what the run of the
decomposition holds, and refuses when a component of it has failed. -/
namespace RowMajor.Linear
open InPlace (Ends)
open Matrix
variable {n m : Nat} {σ : Type}

section Results
variable {α : Type} {k : Nat} {d : Deflation σ α n m k}

/-- What a decomposition reports: how each of its components stopped, in order. -/
def haltEvents (d : Deflation σ α n m k) : Log :=
  (d.halts.zipIdx.map fun halt => haltEvent halt.2 halt.1.1 halt.1.2).toArray

theorem getElem?_haltEvents {c spent : Nat} {halt : Halt}
    (h : d.halts[c]? = some (halt, spent)) :
    (haltEvents d)[c]? = some (haltEvent c halt spent) := by
  simp [haltEvents, h]

/-- The refusal names the component that could not be found. -/
def decompositionResult (limits : PowerLimits α) (d : Deflation σ α n m k) : Except Error Unit :=
  match d.failed with
  | none => .ok ()
  | some component => .error (.notConverged component limits.maxIterations)

theorem decompositionResult_eq_ok {limits : PowerLimits α} :
    decompositionResult limits d = .ok () ↔ d.failed = none := by
  rw [decompositionResult]
  cases d.failed with
  | none => exact iff_of_true rfl rfl
  | some c =>
      constructor <;> intro impossible <;> cases impossible

end Results

section Ends
variable {α : Type} [Scalar α] {source : Source σ α} {state : σ} {limits : PowerLimits α}
  {t u s v : Tensor α}

/-- Without room for either side the call faults. Else it writes what the run has found. -/
theorem singularInto_ends_iff (h : t.shape = [n, m]) (hu : u.shape = [n, min n m])
    (hs : s.shape = [min n m]) (hv : v.shape = [m, min n m]) {done : Deflation σ α n m (min n m)}
    (run : Deflation.run source limits state (t.matrix h)
      ⟨u.matrix hu, s.vector hs, v.matrix hv⟩ = done)
    {log later : Log} {result : Except Error Unit} {after : Tensor α × Tensor α × Tensor α} :
    Ends (singularInto source state limits t) (u, s, v) log result after later ↔
      n < Word.room ∧ m < Word.room ∧ result = decompositionResult limits done ∧
        after = (u.withMatrix hu done.factors.u, s.withVector hs done.factors.s,
          v.withMatrix hv done.factors.v) ∧ later = log ++ haltEvents done := by
  have emits := Ends.emit_all done.halts.zipIdx
    (fun halt => haltEvent halt.2 halt.1.1 halt.1.2) (u, s, v) log
  unfold singularInto
  rw [Ends.bind_iff Ends.get, Ends.check_iff (requireMatrix_eq h)]
  rw [Ends.check_iff (requireShape_eq hu), Ends.check_iff (requireShape_eq hs),
    Ends.check_iff (requireShape_eq hv)]
  -- From here on only the requests for room can keep the call from ending.
  rw [Ends.guard_iff, Ends.guard_iff, Word.requireRoom_eq_ok, Word.requireRoom_eq_ok]
  simp only [run]
  rw [Ends.bind_iff emits, Ends.bind_iff Ends.set]
  unfold decompositionResult
  cases done.failed with
  | none =>
      rw [Ends.pure.unique]
      rfl
  | some component =>
      rw [Ends.throw.unique]
      rfl

/-- A call that succeeds has written the factors of a run in which nothing failed. -/
theorem run_of_ends (h : t.shape = [n, m]) (hu : u.shape = [n, min n m])
    (hs : s.shape = [min n m]) (hv : v.shape = [m, min n m]) {done : Deflation σ α n m (min n m)}
    (run : Deflation.run source limits state (t.matrix h)
      ⟨u.matrix hu, s.vector hs, v.matrix hv⟩ = done) {log later : Log} {u' s' v' : Tensor α}
    (ends : Ends (singularInto source state limits t) (u, s, v) log (.ok ()) (u', s', v') later) :
    done.failed = none ∧ u'.Holds done.factors.u ∧ s'.HoldsVector done.factors.s ∧
      v'.Holds done.factors.v := by
  obtain ⟨_, _, result, after, _⟩ := (singularInto_ends_iff h hu hs hv run).mp ends
  cases after
  exact ⟨decompositionResult_eq_ok.mp result.symm, u.holds_withMatrix hu _,
    s.holdsVector_withVector hs _, v.holds_withMatrix hv _⟩

/-- A run in which nothing fails makes a call succeed that memory has room for. -/
theorem ends_of_run (h : t.shape = [n, m]) (hu : u.shape = [n, min n m])
    (hs : s.shape = [min n m]) (hv : v.shape = [m, min n m]) (rows : n < Word.room)
    (cols : m < Word.room) {done : Deflation σ α n m (min n m)}
    (run : Deflation.run source limits state (t.matrix h)
      ⟨u.matrix hu, s.vector hs, v.matrix hv⟩ = done) (good : done.failed = none) (log : Log) :
    Ends (singularInto source state limits t) (u, s, v) log (.ok ())
      (u.withMatrix hu done.factors.u, s.withVector hs done.factors.s,
        v.withMatrix hv done.factors.v) (log ++ haltEvents done) :=
  (singularInto_ends_iff h hu hs hv run).mpr
    ⟨rows, cols, (decompositionResult_eq_ok.mpr good).symm, rfl, rfl⟩

/-- What a decomposition of one matrix comes to. -/
def decomposition (source : Source σ α) (limits : PowerLimits α) (state : σ) (b : Mat α n m) :
    Except Error (SingularFactors α n m (min n m)) :=
  let done := Deflation.run source limits state b
    ⟨.constant n (min n m) 0, .replicate (min n m) 0, .constant m (min n m) 0⟩
  (decompositionResult limits done).map fun _ => done.factors

/-- The targets play no part in it. -/
theorem decomposition_eq (source : Source σ α) (limits : PowerLimits α) (state : σ) (b : Mat α n m)
    (f : SingularFactors α n m (min n m)) :
    decomposition source limits state b =
      (decompositionResult limits (Deflation.run source limits state b f)).map
        fun _ => (Deflation.run source limits state b f).factors := by
  obtain ⟨failed, factors⟩ := Deflation.run_overwrites source limits state b f
    ⟨.constant n (min n m) 0, .replicate (min n m) 0, .constant m (min n m) 0⟩
  simp only [decomposition, decompositionResult, ← failed]
  cases none : (Deflation.run source limits state b f).failed with
  | none => rw [factors none]
  | some component => rfl

/-- With room for both sides the call refuses or succeeds as the decomposition does, and
on success has written its factors. -/
theorem singularInto_settles (source : Source σ α) (limits : PowerLimits α) (state : σ)
    {b : Mat α n m} (ht : t.Holds b)
    (hu : u.shape = [n, min n m]) (hs : s.shape = [min n m]) (hv : v.shape = [m, min n m])
    (rows : n < Word.room) (cols : m < Word.room) :
    ∃ u' s' v', (singularInto source state limits t).Settles (u, s, v)
        ((decomposition source limits state b).map fun _ => ()) (u', s', v') ∧
      (∀ f, decomposition source limits state b = .ok f →
        u'.Holds f.u ∧ s'.HoldsVector f.s ∧ v'.Holds f.v) ∧
      (u.Addressable → u'.Addressable) ∧ (s.Addressable → s'.Addressable) ∧
      (v.Addressable → v'.Addressable) := by
  obtain ⟨h, rfl⟩ := ht
  have plan := decomposition_eq source limits state (t.matrix h)
    ⟨u.matrix hu, s.vector hs, v.matrix hv⟩
  refine ⟨_, _, _, fun log => ⟨_, (singularInto_ends_iff h hu hs hv rfl).mpr
    ⟨rows, cols, ?_, rfl, rfl⟩⟩, ?_, id, id, id⟩
  · rw [plan]
    cases decompositionResult limits _ <;> rfl
  · intro f here
    rw [plan] at here
    cases result : decompositionResult limits (Deflation.run source limits state (t.matrix h)
      ⟨u.matrix hu, s.vector hs, v.matrix hv⟩) with
    | error refusal =>
        rw [result] at here
        cases here
    | ok _ =>
        rw [result] at here
        cases here
        exact ⟨u.holds_withMatrix hu _, s.holdsVector_withVector hs _, v.holds_withMatrix hv _⟩

end Ends

/-- Limits that accept every iterate let every call succeed that memory has room for. -/
theorem singularInto_succeeds (source : Source σ ℝ) (state : σ) (limits : PowerLimits ℝ)
    {t u s v : Tensor ℝ} (h : t.shape = [n, m]) (hu : u.shape = [n, min n m])
    (hs : s.shape = [min n m]) (hv : v.shape = [m, min n m]) (rows : n < Word.room)
    (cols : m < Word.room) (loose : 1 < limits.epsilon) (budget : 0 < limits.maxIterations)
    (log : Log) : ∃ u' s' v' later,
      Ends (singularInto source state limits t) (u, s, v) log (.ok ()) (u', s', v') later := by
  exact ⟨_, _, _, _, ends_of_run h hu hs hv rows cols rfl
    (Deflation.failed_run_loose loose budget) log⟩

/-- A call that succeeds has found an exact decomposition, if no start vector that it
drew was annihilated by the Gram matrix of what was left of the matrix. -/
theorem singularInto_isDecomposition {source : Source σ ℝ} {state : σ} {limits : PowerLimits ℝ}
    {t u s v u' s' v' : Tensor ℝ} {a : Mat ℝ n m} {log later : Log} (ht : t.Holds a)
    (hu : u.shape = [n, min n m]) (hs : s.shape = [min n m]) (hv : v.shape = [m, min n m])
    (sees : ∀ c : Fin (min n m), (Deflation.stage source limits state a
      ⟨u.matrix hu, s.vector hs, v.matrix hv⟩ c).Sees source)
    (ends : Ends (singularInto source state limits t) (u, s, v) log (.ok ()) (u', s', v') later) :
    ∃ f : SingularFactors ℝ n m (min n m),
      u'.Holds f.u ∧ s'.HoldsVector f.s ∧ v'.Holds f.v ∧ IsDecomposition a f := by
  obtain ⟨h, rfl⟩ := ht
  obtain ⟨done, left, values, right⟩ := run_of_ends h hu hs hv rfl ends
  exact ⟨_, left, values, right, Deflation.run_isDecomposition sees done⟩

def entryLayout : Layout :=
  ⟨[1, 1], [1, 1], 1, rfl, rfl⟩

def numberLayout : Layout :=
  ⟨[1], [1], 1, rfl, rfl⟩

def squareLayout : Layout :=
  ⟨[2, 2], [2, 1], 4, rfl, rfl⟩

def pairLayout : Layout :=
  ⟨[2], [1], 2, rfl, rfl⟩

noncomputable def twoZeros : Tensor ℝ :=
  ⟨pairLayout, #[0, 0], 0, by decide⟩

/-- A vector in units of a fifth. -/
noncomputable def fifths (p q : ℤ) : Vector ℝ 2 :=
  (#v[p, q] : Vector ℤ 2).map fun x : ℤ => (x : ℝ) / 5

theorem get_fifths (p q : ℤ) : (fifths p q).get = ![(p : ℝ) / 5, (q : ℝ) / 5] := by
  ext i
  fin_cases i <;> simp [fifths, Mat.get_eq]

theorem unit_fifths {p q : ℤ} (h : p * p + q * q = 25) :
    (fifths p q).get ⬝ᵥ (fifths p q).get = 1 := by
  have cast : (p : ℝ) * p + q * q = 25 := by exact_mod_cast h
  rw [get_fifths, dotProduct, Fin.sum_univ_two, cons_val_zero, cons_val_one, cons_val_zero]
  linarith

/-- Draws the numbers of a list one after the other, and zeros behind it. -/
noncomputable def drawing (numbers : List ℤ) : Source Nat ℝ :=
  ⟨fun drawn => (numbers.getD drawn 0, drawn + 1)⟩

theorem get_drawing (numbers : List ℤ) (drawn : Nat) :
    ((drawing numbers).vector 2 drawn).1.get =
      ![(numbers.getD drawn 0 : ℝ), (numbers.getD (drawn + 1) 0 : ℝ)] := by
  ext i
  fin_cases i <;> simp [drawing, Source.vector, Mat.get_eq]

theorem dotProduct_drawing (p q : ℤ) (numbers : List ℤ) (drawn : Nat) :
    (fifths p q).get ⬝ᵥ ((drawing numbers).vector 2 drawn).1.get =
      ((p * numbers.getD drawn 0 + q * numbers.getD (drawn + 1) 0 : ℤ) : ℝ) / 5 := by
  rw [get_drawing, get_fifths, dotProduct, Fin.sum_univ_two]
  simp only [cons_val_zero, cons_val_one]
  push_cast
  ring

theorem norm_drawing_le {numbers : List ℤ} {drawn : Nat} {bound : ℤ} (nonneg : 0 ≤ bound)
    (h : numbers.getD drawn 0 ^ 2 + numbers.getD (drawn + 1) 0 ^ 2 ≤ bound ^ 2) :
    Scalar.norm ((drawing numbers).vector 2 drawn).1.toList ≤ bound := by
  refine norm_le (by exact_mod_cast nonneg) ?_
  rw [get_drawing, dotProduct, Fin.sum_univ_two]
  simp only [cons_val_zero, cons_val_one, ← sq]
  exact_mod_cast h

/-- A drawn vector that is short enough for its overlap with its image leads to the image. -/
theorem leading_drawing {b : Mat ℝ 2 2} {numbers : List ℤ} {drawn : Nat} {p q : ℤ}
    {gain epsilon : ℝ} (bound : ℤ) (unit : p * p + q * q = 25) (positive : 0 < gain)
    (image : b.toMatrix *ᵥ ((drawing numbers).vector 2 drawn).1.get = gain • (fifths p q).get)
    (nonneg : 0 ≤ bound) (strict : epsilon ≤ 1)
    (short : numbers.getD drawn 0 ^ 2 + numbers.getD (drawn + 1) 0 ^ 2 ≤ bound ^ 2)
    (close : (1 - epsilon) * bound <
      ((p * numbers.getD drawn 0 + q * numbers.getD (drawn + 1) 0 : ℤ) : ℝ) / 5) (budget : Nat) :
    b.leading (drawing numbers) ⟨epsilon, budget + 1⟩ drawn =
      (some ⟨fifths p q, .converged, 1⟩, drawn + 2) := by
  refine Mat.leading_at_once rfl (unit_fifths unit) positive image ?_ budget
  rw [dotProduct_drawing]
  refine lt_of_le_of_lt ?_ close
  exact mul_le_mul_of_nonneg_left (norm_drawing_le nonneg short) (sub_nonneg.mpr strict)

/-- The first vector that is drawn lies closer to the second axis than to the first. -/
noncomputable def slanted : Source Nat ℝ :=
  drawing [3, 16, 4, -3]

noncomputable def stretchedTensor : Tensor ℝ :=
  ⟨squareLayout, #[2, 0, 0, 1], 0, by decide⟩

noncomputable def stretchedMatrix : Mat ℝ 2 2 :=
  stretchedTensor.matrix rfl

theorem toMatrix_stretchedMatrix : stretchedMatrix.toMatrix = !![2, 0; 0, 1] := by
  ext i j
  fin_cases i <;> fin_cases j <;> rfl

theorem gram_slanted_zero :
    stretchedMatrix.rowGram.toMatrix *ᵥ (slanted.vector 2 0).1.get =
      (20 : ℝ) • (fifths 3 4).get := by
  rw [Mat.toMatrix_rowGram, toMatrix_stretchedMatrix, slanted, get_drawing, get_fifths]
  ext i
  fin_cases i <;> norm_num [Matrix.mul_apply, mulVec, dotProduct, Fin.sum_univ_two]

theorem leading_stretchedMatrix : stretchedMatrix.rowGram.leading slanted ⟨1 / 2, 1⟩ 0 =
    (some ⟨fifths 3 4, .converged, 1⟩, 2) := by
  refine leading_drawing 17 (by decide) (by norm_num) gram_slanted_zero (by decide)
    (by norm_num) (by decide) ?_ 0
  norm_num

/-- What is left of the matrix when its second component is sought. -/
noncomputable def stretchedRest : Mat ℝ 2 2 :=
  stretchedMatrix.deflate (stretchedMatrix.tripletOfLeft (fifths 3 4))

theorem toMatrix_stretchedRest : stretchedRest.toMatrix =
    !![32 / 25, -12 / 25; -24 / 25, 9 / 25] := by
  rw [stretchedRest, Mat.toMatrix_deflate_tripletOfLeft, toMatrix_stretchedMatrix, get_fifths]
  ext i j
  fin_cases i <;> fin_cases j <;> norm_num [vecMulVec, mulVec, dotProduct, Fin.sum_univ_two]

theorem gram_slanted_two :
    stretchedRest.rowGram.toMatrix *ᵥ (slanted.vector 2 2).1.get =
      (73 / 5 : ℝ) • (fifths 4 (-3)).get := by
  rw [Mat.toMatrix_rowGram, toMatrix_stretchedRest, slanted, get_drawing, get_fifths]
  ext i
  fin_cases i <;> norm_num [Matrix.mul_apply, mulVec, dotProduct, Fin.sum_univ_two]

theorem leading_stretchedRest : stretchedRest.rowGram.leading slanted ⟨1 / 2, 1⟩ 2 =
    (some ⟨fifths 4 (-3), .converged, 1⟩, 4) := by
  refine leading_drawing 5 (by decide) (by norm_num) gram_slanted_two (by decide)
    (by norm_num) (by decide) ?_ 0
  norm_num

section Stages
variable (factors : SingularFactors ℝ 2 2 2)

theorem stage_stretched : Deflation.stage slanted ⟨1 / 2, 1⟩ 0 stretchedMatrix factors 1 =
    Deflation.accept ⟨stretchedMatrix, 0, factors, [], none⟩ 0 2
      (stretchedMatrix.tripletOfLeft (fifths 3 4)) .converged 1 := by
  have here := Deflation.stage_one_of_led (f := factors) (Nat.lt_irrefl 2) leading_stretchedMatrix
  exact here

theorem failed_stretched :
    (Deflation.run slanted ⟨1 / 2, 1⟩ 0 stretchedMatrix factors).failed = none :=
  Deflation.failed_run_of_two_led (Nat.lt_irrefl 2) leading_stretchedMatrix leading_stretchedRest

/-- Neither start vector is annihilated, the second one not by what is left of the matrix. -/
theorem sees_stretched (c : Fin 2) :
    (Deflation.stage slanted ⟨1 / 2, 1⟩ 0 stretchedMatrix factors c).Sees slanted := by
  intro _
  rw [if_neg (Nat.lt_irrefl 2), Mat.get_apply]
  fin_cases c
  · show stretchedMatrix.rowGram.toMatrix *ᵥ (slanted.vector 2 0).1.get ≠ 0
    rw [gram_slanted_zero]
    exact smul_ne_zero (by norm_num) (ne_zero_of_unit (unit_fifths (by norm_num)))
  · show (Deflation.stage slanted ⟨1 / 2, 1⟩ 0 stretchedMatrix factors 1).work.rowGram.toMatrix *ᵥ
      (slanted.vector 2
        (Deflation.stage slanted ⟨1 / 2, 1⟩ 0 stretchedMatrix factors 1).state).1.get ≠ 0
    rw [stage_stretched]
    show stretchedRest.rowGram.toMatrix *ᵥ (slanted.vector 2 2).1.get ≠ 0
    rw [gram_slanted_two]
    exact smul_ne_zero (by norm_num) (ne_zero_of_unit (unit_fifths (by norm_num)))

end Stages

theorem stretchedTensor_ends : ∃ (after : Tensor ℝ × Tensor ℝ × Tensor ℝ) (later : Log),
    Ends (singularInto slanted 0 ⟨1 / 2, 1⟩ stretchedTensor)
      (stretchedTensor, twoZeros, stretchedTensor) #[] (.ok ()) after later :=
  have square : stretchedTensor.shape = [2, 2] := rfl
  ⟨_, _, ends_of_run square square (rfl : twoZeros.shape = [2]) square (by decide)
    (by decide) rfl (failed_stretched _) #[]⟩

/-- Both components have weight, and the second one is sought in what the first one leaves. -/
theorem singularInto_isDecomposition_stretchedTensor :
    ∃ (u s v : Tensor ℝ) (later : Log) (f : SingularFactors ℝ 2 2 2),
      Ends (singularInto slanted 0 ⟨1 / 2, 1⟩ stretchedTensor)
        (stretchedTensor, twoZeros, stretchedTensor) #[] (.ok ()) (u, s, v) later ∧
      (∀ (held : SingularFactors ℝ 2 2 2) (c : Fin 2),
        (Deflation.stage slanted ⟨1 / 2, 1⟩ 0 stretchedMatrix held c).Sees slanted) ∧
      u.Holds f.u ∧ s.HoldsVector f.s ∧ v.Holds f.v ∧ IsDecomposition stretchedMatrix f := by
  obtain ⟨⟨u, s, v⟩, later, ends⟩ := stretchedTensor_ends
  obtain ⟨f, found⟩ := singularInto_isDecomposition (a := stretchedMatrix) ⟨rfl, rfl⟩ rfl rfl rfl
    (sees_stretched _) ends
  exact ⟨u, s, v, later, f, ends, sees_stretched, found⟩

end RowMajor.Linear

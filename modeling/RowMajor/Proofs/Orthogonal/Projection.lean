import Mathlib
import RowMajor.Matrix.Orthogonal
import RowMajor.Proofs.Matrix.Algebra
import RowMajor.Proofs.Matrix.Length

/-! Taking projections off a column, one after the other. Each coefficient is found from what
the earlier projections have left, and what is left in the end is orthogonal to all of the
finished columns. -/
namespace RowMajor.Orthogonal
open Matrix
variable {n : Nat}

section Stages
variable {α : Type} [Scalar α]

/-- The factors after the first `count` columns. -/
def stage (a : Mat α n n) (count : Nat) : Orthogonal α n :=
  loopTo (column a) (start n) count

theorem stage_all (a : Mat α n n) : stage a n = run a :=
  loopTo_all (column a) _

theorem project_of_lt {i j : Fin n} (before : i < j) (state : Vector α n × Orthogonal α n) :
    project j state i =
      let c := Scalar.dot (state.2.copy.get i).toList state.1.toList
      (state.1.zipWith (fun vk qk => vk - c * qk) (state.2.copy.get i),
        { state.2 with r := state.2.r.put i j c }) :=
  if_pos before

/-- Only coefficients are recorded. -/
structure Keeps (f : Orthogonal α n) (state : Vector α n × Orthogonal α n) : Prop where
  q : state.2.q = f.q
  copy : state.2.copy = f.copy

theorem Keeps.project {f : Orthogonal α n} {state : Vector α n × Orthogonal α n} (h : Keeps f state)
    (i j : Fin n) : Keeps f (project j state i) := by
  rw [Orthogonal.project]
  split
  · exact ⟨h.q, h.copy⟩
  · exact h

/-- What is left of column `j` in the end, and the factors with the coefficients recorded. -/
def reduced (a : Mat α n n) (f : Orthogonal α n) (j : Fin n) : Vector α n × Orthogonal α n :=
  Fin.foldl n (project j) (a.column j, f)

theorem keeps_reduced (a : Mat α n n) (f : Orthogonal α n) (j : Fin n) : Keeps f (reduced a f j) :=
  foldl_invariant (fun _ state => Keeps f state) ⟨rfl, rfl⟩ fun i _ h => h.project i j

/-- The length that column `j` is divided by. -/
def length (a : Mat α n n) (f : Orthogonal α n) (j : Fin n) : α :=
  Scalar.norm (reduced a f j).1.toList

/-- What is left of column `j`, over its length. -/
def direction (a : Mat α n n) (f : Orthogonal α n) (j : Fin n) : Vector α n :=
  (reduced a f j).1.map (· / length a f j)

theorem column_eq (a : Mat α n n) (f : Orthogonal α n) (j : Fin n) :
    column a f j =
      ⟨(reduced a f j).2.q.putColumn j (direction a f j),
        (reduced a f j).2.r.put j j (length a f j),
        (reduced a f j).2.copy.set j (direction a f j) j.isLt⟩ := rfl

theorem column_q (a : Mat α n n) (f : Orthogonal α n) (j k : Fin n) :
    (column a f j).q.column k = if k = j then direction a f j else f.q.column k := by
  rw [column_eq, (keeps_reduced a f j).q]
  exact Mat.column_putColumn ..

theorem column_copy (a : Mat α n n) (f : Orthogonal α n) (j k : Fin n) :
    (column a f j).copy.get k = if k = j then direction a f j else f.copy.get k := by
  rw [column_eq, (keeps_reduced a f j).copy]
  exact get_set ..

/-- The copy of the first `count` columns is true. -/
def Copied (f : Orthogonal α n) (count : Nat) : Prop :=
  ∀ k : Fin n, (k : Nat) < count → f.copy.get k = f.q.column k

theorem Copied.column {f : Orthogonal α n} {j : Fin n} (h : Copied f j) (a : Mat α n n) :
    Copied (column a f j) (j + 1) := by
  intro k small
  rw [column_copy, column_q]
  split
  · rfl
  · rename_i other
    have := Fin.val_ne_of_ne other
    exact h k (by omega)

/-- The length that column `j` of `a` is divided by in the end. -/
def divisor (a : Mat α n n) (j : Fin n) : α :=
  length a (stage a j) j

end Stages

/-- In the middle of column `j`: the projections on the first `count` finished columns have
been taken off and recorded. -/
structure Reduced (a : Mat ℝ n n) (f : Orthogonal ℝ n) (j : Fin n) (count : Nat)
    (state : Vector ℝ n × Orthogonal ℝ n) : Prop extends Keeps f state where
  others : ∀ p k : Fin n, ¬ (k = j ∧ (p : Nat) < count) → state.2.r.entry p k = f.r.entry p k
  sum : (a.column j).get = state.1.get +
    ∑ p : Fin n, if (p : Nat) < count then state.2.r.entry p j • (f.q.column p).get else 0
  outside : ∀ p : Fin n, (p : Nat) < count → (f.q.column p).get ⬝ᵥ state.1.get = 0

/-- The first `count` columns have unit length and are orthogonal to each other. -/
def Orthonormal (q : Mat ℝ n n) (count : Nat) : Prop :=
  ∀ p k : Fin n, (p : Nat) < count → (k : Nat) < count →
    (q.column p).get ⬝ᵥ (q.column k).get = if p = k then 1 else 0

theorem get_zipWith_sub (v q : Vector ℝ n) (c : ℝ) :
    (v.zipWith (fun vk qk => vk - c * qk) q).get = v.get - c • q.get := by
  funext k
  simp only [Mat.get_eq, Fin.getElem_fin, Vector.getElem_zipWith, Pi.sub_apply, Pi.smul_apply,
    smul_eq_mul]

theorem Reduced.start (a : Mat ℝ n n) (f : Orthogonal ℝ n) (j : Fin n) :
    Reduced a f j 0 (a.column j, f) where
  q := rfl
  copy := rfl
  others _ _ _ := rfl
  sum := by simp only [Nat.not_lt_zero, if_false, Finset.sum_const_zero, add_zero]
  outside p none := absurd none (Nat.not_lt_zero p)

theorem Reduced.step {a : Mat ℝ n n} {f : Orthogonal ℝ n} {i j : Fin n}
    {state : Vector ℝ n × Orthogonal ℝ n} (h : Reduced a f j i state) (copied : Copied f j)
    (orthonormal : Orthonormal f.q j) (before : i < j) :
    Reduced a f j (i + 1) (project j state i) := by
  let c := (f.q.column i).get ⬝ᵥ state.1.get
  have coefficient : Scalar.dot (f.q.column i).toList state.1.toList = c :=
    ExactScalar.dot_eq _ _
  have earlier (p : Fin n) (small : (p : Nat) < i) :
      (state.2.r.put i j c).entry p j = state.2.r.entry p j := by
    rw [Mat.entry_put, if_neg fun here => Fin.ne_of_lt small here.1]
  rw [project_of_lt before, h.copy, copied i before, coefficient]
  constructor
  · exact ⟨h.q, h.copy⟩
  · intro p k outside
    rw [Mat.entry_put, if_neg, h.others p k]
    · exact fun here => outside ⟨here.1, Nat.lt_succ_of_lt here.2⟩
    · rintro ⟨rfl, rfl⟩
      exact outside ⟨rfl, Nat.lt_succ_self p⟩
  · have same : (∑ p : Fin n, if p < i then (state.2.r.put i j c).entry p j • (f.q.column p).get
        else 0) = ∑ p : Fin n, if p < i then state.2.r.entry p j • (f.q.column p).get else 0 := by
      apply Finset.sum_congr rfl
      intro p _
      split
      · rename_i small
        rw [earlier p small]
      · rfl
    simp only [get_zipWith_sub]
    rw [ExactScalar.sum_below_succ, same, Mat.entry_put, if_pos ⟨rfl, rfl⟩,
      sub_add_add_cancel]
    exact h.sum
  · intro p small
    have inside : (p : Nat) < j := Nat.lt_of_lt_of_le small before
    simp only [get_zipWith_sub]
    rw [dotProduct_sub, dotProduct_smul, orthonormal p i inside before]
    by_cases now : p = i
    · rw [if_pos now, now, smul_eq_mul, mul_one, sub_self]
    · have := Fin.val_ne_of_ne now
      rw [if_neg now, smul_zero, sub_zero]
      exact h.outside p (by omega)

/-- The projections on columns from `j` on are left out. -/
theorem reduced_all {a : Mat ℝ n n} {f : Orthogonal ℝ n} {j : Fin n} (copied : Copied f j)
    (orthonormal : Orthonormal f.q j) : Reduced a f j j (reduced a f j) := by
  apply foldl_invariant_below (Nat.le_of_lt j.isLt) (fun i state beyond => if_neg beyond)
    fun count state => Reduced a f j count state
  · exact .start a f j
  · exact fun i state before h => h.step copied orthonormal before

end RowMajor.Orthogonal

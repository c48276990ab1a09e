import Mathlib
import RowMajor.Proofs.Orthogonal.Projection

/-! What the place of the first factor held before. No column of it is read, and each one is
written in its turn. -/
namespace RowMajor.Orthogonal
variable {α : Type} {n : Nat}

/-- The same with another first factor. -/
def withFirst (q : Mat α n n) (f : Orthogonal α n) : Orthogonal α n :=
  { f with q }

/-- Two runs that differ at most in columns not written yet. -/
structure Alike (count : Nat) (f g : Orthogonal α n) : Prop where
  r_eq : f.r = g.r
  copy_eq : f.copy = g.copy
  column_eq : ∀ k : Fin n, k < count → f.q.column k = g.q.column k

theorem Alike.eq {f g : Orthogonal α n} (h : Alike n f g) : f = g := by
  have first : f.q = g.q := Mat.ext_entry fun i k => by
    rw [← Mat.get_column, ← Mat.get_column, h.column_eq k k.isLt]
  cases f
  cases g
  cases first
  cases h.r_eq
  cases h.copy_eq
  rfl

variable [Scalar α]

theorem project_withFirst (q : Mat α n n) (state : Vector α n × Orthogonal α n) (i j : Fin n) :
    project j (state.1, withFirst q state.2) i =
      ((project j state i).1, withFirst q (project j state i).2) := by
  unfold project
  split <;> rfl

theorem reduced_withFirst (q a : Mat α n n) (f : Orthogonal α n) (j : Fin n) :
    reduced a (withFirst q f) j = ((reduced a f j).1, withFirst q (reduced a f j).2) := by
  let view (state : Vector α n × Orthogonal α n) := (state.1, withFirst q state.2)
  have same := loopTo_map view (f := project j) (g := project j)
    (fun state i => (project_withFirst q state i j).symm) (a.column j, f) n
  rw [loopTo_all, loopTo_all] at same
  exact same.symm

theorem column_withFirst (q a : Mat α n n) (f : Orthogonal α n) (j : Fin n) :
    column a (withFirst q f) j =
      withFirst (q.putColumn j (direction a f j)) (column a f j) := by
  have first : (reduced a (withFirst q f) j).2.q = q := (keeps_reduced a (withFirst q f) j).q
  rw [column_eq, column_eq, first]
  simp only [direction, length, reduced_withFirst]
  rfl

theorem Alike.step {a : Mat α n n} {j : Fin n} {f g : Orthogonal α n} (h : Alike j f g) :
    Alike (j + 1) (column a f j) (column a g j) := by
  have same : withFirst g.q f = g := by
    rw [withFirst, h.r_eq, h.copy_eq]
  have next := column_withFirst g.q a f j
  rw [same] at next
  constructor
  · rw [next, withFirst]
  · rw [next, withFirst]
  · intro k before
    rw [next, withFirst, Mat.column_putColumn, column_q]
    split
    · rfl
    · rename_i other
      have apart := Fin.val_ne_of_ne other
      exact h.column_eq k (by omega)

theorem alike_loopTo (a : Mat α n n) (f : Orthogonal α n) (q : Mat α n n) {count : Nat}
    (enough : count ≤ n) :
    Alike count (loopTo (column a) f count) (loopTo (column a) (withFirst q f) count) := by
  induction count with
  | zero => exact ⟨rfl, rfl, fun k none => absurd none (Nat.not_lt_zero k)⟩
  | succ count ih =>
      let j : Fin n := ⟨count, enough⟩
      change Alike (j + 1) (loopTo (column a) f (j + 1)) (loopTo (column a) (withFirst q f) (j + 1))
      rw [loopTo_succ, loopTo_succ]
      exact (ih (Nat.le_of_succ_le enough)).step

theorem runOver_eq (q a : Mat α n n) : runOver q a = run a := by
  have alike := alike_loopTo a (start n) q (Nat.le_refl n)
  rw [loopTo_all, loopTo_all] at alike
  exact alike.eq.symm

end RowMajor.Orthogonal

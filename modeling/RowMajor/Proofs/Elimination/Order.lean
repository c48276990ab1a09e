import Mathlib
import RowMajor.Proofs.Elimination.Step

/-! The row order that an elimination ends up with. Clearing columns with exchanges
on the way does the same as clearing them without in the matrix whose rows have been
put in that order beforehand. No law of the scalars is used. -/
namespace RowMajor
variable {α : Type} [Scalar α] {n : Nat}

namespace Mat

/-- The matrix with its first `count` columns cleared, without any exchange. -/
def eliminatedTo (a : Mat α n n) (count : Nat) : Mat α n n :=
  loopTo eliminate a count

theorem eliminatedTo_succ (a : Mat α n n) (i : Fin n) :
    a.eliminatedTo (i + 1) = (a.eliminatedTo i).eliminate i :=
  loopTo_succ eliminate a i

/-- An entry is not touched after its own row or column has had its turn. -/
theorem entry_eliminatedTo_settled (a : Mat α n n) {p q : Fin n} {early late : Nat}
    (settled : p ≤ early ∨ q < early) (le : early ≤ late) (bound : late ≤ n) :
    (a.eliminatedTo late).entry p q = (a.eliminatedTo early).entry p q := by
  induction late, le using Nat.le_induction with
  | base => rfl
  | succ late le ih =>
      rw [a.eliminatedTo_succ ⟨late, bound⟩, entry_eliminate, ← ih (Nat.le_of_succ_le bound)]
      split
      · rename_i below
        have above : late < p := below
        have left : q < ⟨late, bound⟩ := by
          show (q : Nat) < late
          omega
        rw [if_neg (Fin.ne_of_lt left), if_neg (Fin.lt_asymm left)]
      · rfl

/-- Rows that have had their turn stay; the later ones may change places. -/
theorem eliminatedTo_reorder (a : Mat α n n) {order : Fin n → Fin n} {count : Nat}
    (bound : count ≤ n) (fixed : ∀ i : Fin n, i < count → order i = i)
    (later : ∀ p : Fin n, count ≤ p → count ≤ order p) :
    (a.reorder order).eliminatedTo count = (a.eliminatedTo count).reorder order := by
  have partly (part : Nat) (le : part ≤ count) :
      (a.reorder order).eliminatedTo part = (a.eliminatedTo part).reorder order := by
    induction part with
    | zero => rfl
    | succ part ih =>
        let i : Fin n := ⟨part, Nat.lt_of_lt_of_le le bound⟩
        have below (p : Fin n) : i < order p ↔ i < p := by
          by_cases early : (p : Nat) < count
          · rw [fixed p early]
          · have late := later p (Nat.le_of_not_lt early)
            simp only [Fin.lt_def, i]
            omega
        rw [eliminatedTo_succ _ i, eliminatedTo_succ _ i, ih (Nat.le_of_succ_le le)]
        exact eliminate_reorder _ (fixed i le) below
  exact partly count (Nat.le_refl count)

end Mat

namespace Pivots

def order (pivots : Pivots n) : Fin n → Fin n :=
  pivots.rows.get

theorem order_identity : (identity n).order = id := by
  funext i
  simp only [order, identity, Mat.get_eq, Fin.getElem_fin, Vector.getElem_ofFn, Fin.eta, id]

theorem order_exchange (pivots : Pivots n) (i k : Fin n) :
    (pivots.exchange i k).order = pivots.order ∘ Equiv.swap i k := by
  funext p
  simp only [order, exchange, Mat.get_eq, Fin.getElem_fin, Vector.getElem_swap, Function.comp_apply,
    Equiv.swap_apply_def, ← Fin.ext_iff]
  split
  · rfl
  · split <;> rfl

/-- The order is a permutation, and the number of exchanges tells its sign. -/
structure Follows (pivots : Pivots n) (σ : Equiv.Perm (Fin n)) : Prop where
  order_eq : pivots.order = σ
  sign_eq : Equiv.Perm.sign σ = (-1) ^ pivots.swaps

theorem identity_follows : (identity n).Follows 1 :=
  ⟨order_identity, Equiv.Perm.sign_one⟩

theorem Follows.exchange {pivots : Pivots n} {σ : Equiv.Perm (Fin n)} (h : pivots.Follows σ)
    {i k : Fin n} (distinct : i ≠ k) : (pivots.exchange i k).Follows (σ * Equiv.swap i k) where
  order_eq := by rw [order_exchange, h.order_eq, Equiv.Perm.coe_mul]
  sign_eq := by
    rw [Equiv.Perm.sign_mul, Equiv.Perm.sign_swap distinct, h.sign_eq]
    exact (pow_succ _ _).symm

/-- The sign of the pivots is the parity of the exchanges. -/
theorem sign_eq_ite (pivots : Pivots n) :
    (pivots.sign : α) = if (-1 : ℤˣ) ^ pivots.swaps = 1 then 1 else -1 := by
  rw [Pivots.sign]
  rcases Nat.even_or_odd pivots.swaps with even | odd
  · rw [if_pos (Nat.even_iff.mp even), if_pos even.neg_one_pow]
  · have remainder : pivots.swaps % 2 ≠ 0 := by
      rw [Nat.odd_iff.mp odd]
      exact one_ne_zero
    rw [if_neg remainder, odd.neg_one_pow, if_neg (by decide)]

theorem Follows.sign_eq_ite {pivots : Pivots n} {σ : Equiv.Perm (Fin n)} (h : pivots.Follows σ) :
    (pivots.sign : α) = if Equiv.Perm.sign σ = 1 then 1 else -1 := by
  rw [h.sign_eq]
  exact pivots.sign_eq_ite

end Pivots

namespace Elimination

/-- The elimination after `count` columns. -/
def stage (a : Mat α n n) (count : Nat) : Elimination α n :=
  loopTo step (start a) count

theorem stage_all (a : Mat α n n) : stage a n = run a :=
  loopTo_all step (start a)

/-- The first half of a step: the pivot is brought to the diagonal. -/
def choose (e : Elimination α n) (i : Fin n) : Elimination α n :=
  let k := e.matrix.pivotRow i
  if k = i then e else e.exchange i k

theorem step_eq (e : Elimination α n) (i : Fin n) :
    e.step i = { e.choose i with matrix := (e.choose i).matrix.eliminate i } := rfl

/-- The elimination in the middle of step `i`. -/
def pivoted (a : Mat α n n) (i : Fin n) : Elimination α n :=
  (stage a i).choose i

theorem matrix_stage_succ (a : Mat α n n) (i : Fin n) :
    (stage a (i + 1)).matrix = (pivoted a i).matrix.eliminate i := by
  rw [stage, loopTo_succ, step_eq]
  rfl

theorem pivots_stage_succ (a : Mat α n n) (i : Fin n) :
    (stage a (i + 1)).pivots = (pivoted a i).pivots := by
  rw [stage, loopTo_succ, step_eq]
  rfl

theorem matrix_choose (e : Elimination α n) (i : Fin n) :
    (e.choose i).matrix = e.matrix.reorder (Equiv.swap i (e.matrix.pivotRow i)) := by
  simp only [choose]
  split
  · rename_i same
    rw [same, Equiv.swap_self]
    exact (Mat.reorder_id _).symm
  · exact Mat.exchangeRows_eq_reorder ..

theorem order_choose (e : Elimination α n) (i : Fin n) :
    (e.choose i).pivots.order = e.pivots.order ∘ Equiv.swap i (e.matrix.pivotRow i) := by
  simp only [choose]
  split
  · rename_i same
    rw [same, Equiv.swap_self]
    rfl
  · exact Pivots.order_exchange ..

theorem follows_stage (a : Mat α n n) {count : Nat} (bound : count ≤ n) :
    ∃ σ, (stage a count).pivots.Follows σ := by
  refine loopTo_invariant (f := step) (fun _ e => ∃ σ, e.pivots.Follows σ) ?_ ?_ bound
  · exact ⟨1, Pivots.identity_follows⟩
  · rintro i e ⟨σ, h⟩
    rw [step_eq]
    show ∃ σ, (e.choose i).pivots.Follows σ
    simp only [choose]
    split
    · exact ⟨σ, h⟩
    · rename_i other
      exact ⟨_, h.exchange (Ne.symm other)⟩

theorem follows_run (a : Mat α n n) : ∃ σ, (run a).pivots.Follows σ := by
  rw [← stage_all]
  exact follows_stage a (Nat.le_refl n)

/-- An exchange in step `i` leaves the rows before `i` alone. -/
theorem swap_of_lt {i k p : Fin n} (le : i ≤ k) (before : p < i) : Equiv.swap i k p = p :=
  Equiv.swap_apply_of_ne_of_ne (Fin.ne_of_lt before) (Fin.ne_of_lt (Fin.lt_of_lt_of_le before le))

theorem le_swap {i k p : Fin n} (le : i ≤ k) (after : i ≤ p) : i ≤ Equiv.swap i k p := by
  rw [Equiv.swap_apply_def]
  split
  · exact le
  · split
    · exact Fin.le_refl i
    · exact after

/-- Putting the rows in order first and clearing the columns then comes to the same.
The exchange of step `i` can be moved before the first `i` steps. -/
theorem matrix_choose_eq_eliminatedTo {a : Mat α n n} {e : Elimination α n} {i : Fin n}
    (h : e.matrix = (a.reorder e.pivots.order).eliminatedTo i) :
    (e.choose i).matrix = (a.reorder (e.choose i).pivots.order).eliminatedTo i := by
  have le := e.matrix.le_pivotRow i
  have moved := Mat.eliminatedTo_reorder (a.reorder e.pivots.order) (Nat.le_of_lt i.isLt)
    (fun p before => swap_of_lt le before) (fun p after => le_swap le after)
  rw [matrix_choose, order_choose, ← Mat.reorder_reorder, moved, ← h]

theorem matrix_stage (a : Mat α n n) {count : Nat} (bound : count ≤ n) :
    (stage a count).matrix = (a.reorder (stage a count).pivots.order).eliminatedTo count := by
  refine loopTo_invariant (f := step)
    (fun count e => e.matrix = (a.reorder e.pivots.order).eliminatedTo count) ?_ ?_ bound
  · exact ((congrArg a.reorder Pivots.order_identity).trans a.reorder_id).symm
  · intro i e h
    rw [step_eq, Mat.eliminatedTo_succ]
    exact congrArg (·.eliminate i) (matrix_choose_eq_eliminatedTo h)

theorem matrix_pivoted (a : Mat α n n) (i : Fin n) :
    (pivoted a i).matrix = (a.reorder (pivoted a i).pivots.order).eliminatedTo i :=
  matrix_choose_eq_eliminatedTo (matrix_stage a (Nat.le_of_lt i.isLt))

theorem matrix_run (a : Mat α n n) :
    (run a).matrix = (a.reorder (run a).pivots.order).eliminatedTo n := by
  rw [← stage_all]
  exact matrix_stage a (Nat.le_refl n)

/-- A row is final once it has been the pivot row. -/
theorem entry_stage_settled (a : Mat α n n) {i : Fin n} {count : Nat} (settled : i < count)
    (bound : count ≤ n) (q : Fin n) :
    (stage a count).matrix.entry i q = (pivoted a i).matrix.entry i q := by
  induction count, settled using Nat.le_induction with
  | base =>
      rw [Nat.succ_eq_add_one, matrix_stage_succ, Mat.entry_eliminate, if_neg (Fin.lt_irrefl i)]
  | succ count settled ih =>
      let j : Fin n := ⟨count, bound⟩
      have before : i < j := settled
      have earlier := ih (Nat.le_of_succ_le bound)
      rw [matrix_stage_succ a j, Mat.entry_eliminate, if_neg (Fin.lt_asymm before), pivoted,
        matrix_choose, Mat.entry_reorder, swap_of_lt ((stage a j).matrix.le_pivotRow j) before]
      exact earlier

/-- What step `i` divides by, if there is anything left to clear. -/
def divisor (a : Mat α n n) (i : Fin n) : α :=
  (pivoted a i).matrix.entry i i

theorem entry_run_diagonal (a : Mat α n n) (i : Fin n) :
    (run a).matrix.entry i i = divisor a i := by
  rw [← stage_all]
  exact entry_stage_settled a i.isLt (Nat.le_refl n) i

end Elimination
end RowMajor

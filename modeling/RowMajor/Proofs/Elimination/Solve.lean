import Mathlib
import RowMajor.Proofs.Elimination.Factors

/-! Solving with triangular factors, one column of the permutation after the other.
What a substitution does to the entries is stated without any law of the scalars; that
it solves a system needs exact ones. -/
namespace RowMajor
variable {α : Type} {n : Nat}

namespace Mat

section Substitution
variable [Scalar α]

/-- What is left of `value` after the selected multiples of `y` have been taken off. -/
def residue (lu : Mat α n n) (i : Fin n) (selects : Fin n → Bool) (y : Fin n → α) (value : α) : α :=
  Fin.foldl n (fun acc k => if selects k then acc - lu.entry i k * y k else acc) value

theorem entry_substitute (lu x : Mat α n n) {j i : Fin n} {selects : Fin n → Bool}
    (unselected : selects i = false) (p q : Fin n) :
    (lu.substitute j i selects x).entry p q =
      if p = i ∧ q = j then lu.residue i selects (fun k => x.entry k j) (x.entry i j)
      else x.entry p q := by
  let reduce (acc : α) (k : Fin n) : α :=
    if selects k then acc - lu.entry i k * x.entry k j else acc
  let partly (count : Nat) (b : Mat α n n) : Prop :=
    ∀ p q, b.entry p q =
      if p = i ∧ q = j then loopTo reduce (x.entry i j) count else x.entry p q
  have done : partly n (lu.substitute j i selects x) := by
    apply foldl_invariant partly
    · intro p q
      split
      · rename_i here
        rw [here.1, here.2]
        rfl
      · rfl
    · intro k b h p q
      rw [loopTo_succ]
      simp only [reduce]
      split
      · rename_i selected
        have other : k ≠ i := by
          rintro rfl
          rw [selected] at unselected
          cases unselected
        have own : i = i ∧ j = j := ⟨rfl, rfl⟩
        have unread : ¬ (k = i ∧ j = j) := fun here => other here.1
        rw [entry_put, h i j, if_pos own, h k j, if_neg unread, h p q]
        by_cases here : p = i ∧ q = j
        · rw [if_pos here, if_pos here]
        · simp only [if_neg here]
      · exact h p q
  rw [done p q, loopTo_all]
  rfl

theorem entry_substitute_of_ne (lu x : Mat α n n) {j i : Fin n} {selects : Fin n → Bool}
    (unselected : selects i = false) {p q : Fin n} (elsewhere : ¬ (p = i ∧ q = j)) :
    (lu.substitute j i selects x).entry p q = x.entry p q := by
  rw [entry_substitute lu x unselected, if_neg elsewhere]

/-- The substitutions for a column leave the others alone. -/
theorem entry_forward_of_ne (lu : Mat α n n) (pivots : Pivots n) (x : Mat α n n) {j q : Fin n}
    (other : q ≠ j) (p : Fin n) : (lu.forward pivots j x).entry p q = x.entry p q := by
  apply foldl_invariant fun _ (y : Mat α n n) => y.entry p q = x.entry p q
  · rfl
  · intro i y h
    have elsewhere : ¬ (p = i ∧ q = j) := fun here => other here.2
    rw [entry_substitute_of_ne lu _ (decide_eq_false (Fin.lt_irrefl i)) elsewhere]
    split
    · rw [entry_put, if_neg elsewhere, h]
    · exact h

theorem entry_backward_of_ne (lu x : Mat α n n) {j q : Fin n} (other : q ≠ j) (p : Fin n) :
    (lu.backward j x).entry p q = x.entry p q := by
  apply foldr_invariant fun _ (y : Mat α n n) => y.entry p q = x.entry p q
  · rfl
  · intro i y h
    have elsewhere : ¬ (p = i ∧ q = j) := fun here => other here.2
    rw [entry_put, if_neg elsewhere,
      entry_substitute_of_ne lu _ (decide_eq_false (Fin.lt_irrefl i)) elsewhere, h]

end Substitution

end Mat

variable [ExactScalar α]

namespace Mat

theorem residue_eq (lu : Mat α n n) (i : Fin n) (selects : Fin n → Bool) (y : Fin n → α)
    (value : α) :
    lu.residue i selects y value = value - ∑ k, if selects k then lu.entry i k * y k else 0 :=
  ExactScalar.foldl_sub_if (fun k => selects k = true) (fun k => lu.entry i k * y k) value

/-- The column `y` solves the system of the unit lower factor with right side `b`. -/
def SolvesLower (lu : Mat α n n) (y b : Fin n → α) (p : Fin n) : Prop :=
  y p = b p - ∑ k, if k < p then lu.entry p k * y k else 0

/-- The column `x` solves the system of the upper factor with right side `y`. -/
def SolvesUpper (lu : Mat α n n) (x y : Fin n → α) (p : Fin n) : Prop :=
  x p = (y p - ∑ k, if p < k then lu.entry p k * x k else 0) / lu.entry p p

theorem SolvesLower.congr {lu : Mat α n n} {y z b : Fin n → α} {p : Fin n}
    (h : lu.SolvesLower y b p) (same : ∀ k, k ≤ p → z k = y k) : lu.SolvesLower z b p := by
  rw [SolvesLower, same p (Fin.le_refl p), h]
  congr 1
  apply Finset.sum_congr rfl
  intro k _
  split
  · rename_i before
    rw [same k (Fin.le_of_lt before)]
  · rfl

theorem SolvesUpper.congr {lu : Mat α n n} {x z y : Fin n → α} {p : Fin n}
    (h : lu.SolvesUpper x y p) (same : ∀ k, p ≤ k → z k = x k) : lu.SolvesUpper z y p := by
  rw [SolvesUpper, same p (Fin.le_refl p), h]
  congr 2
  apply Finset.sum_congr rfl
  intro k _
  split
  · rename_i after
    rw [same k (Fin.le_of_lt after)]
  · rfl

/-- Column `j` of the permutation. -/
def pick (pivots : Pivots n) (j p : Fin n) : α :=
  if pivots.order p = j then 1 else 0

/-- One step of the substitution changes a single entry, which was zero before. -/
theorem entry_forward_step (lu : Mat α n n) (pivots : Pivots n) {i j : Fin n} {y : Mat α n n}
    (zero : y.entry i j = 0) (p q : Fin n) :
    (lu.substitute j i (· < i) (if pivots.rows.get i = j then y.put i j 1 else y)).entry p q =
      if p = i ∧ q = j then
        pick pivots j i - ∑ k, if k < i then lu.entry i k * y.entry k j else 0
      else y.entry p q := by
  set seeded := if pivots.rows.get i = j then y.put i j 1 else y with hseeded
  have seed (p q : Fin n) :
      seeded.entry p q = if p = i ∧ q = j then pick pivots j i else y.entry p q := by
    rw [hseeded, pick, Pivots.order]
    by_cases one : pivots.rows.get i = j
    · rw [if_pos one, if_pos one, entry_put]
    · rw [if_neg one, if_neg one]
      split
      · rename_i here
        rw [here.1, here.2, zero]
      · rfl
  have unselected : decide (i < i) = false := decide_eq_false (Fin.lt_irrefl i)
  have own : i = i ∧ j = j := ⟨rfl, rfl⟩
  rw [entry_substitute lu seeded unselected, residue_eq, seed i j, if_pos own]
  by_cases here : p = i ∧ q = j
  · rw [if_pos here, if_pos here]
    congr 1
    apply Finset.sum_congr rfl
    intro k _
    by_cases before : k < i
    · have unread : ¬ (k = i ∧ j = j) := fun here => Fin.ne_of_lt before here.1
      rw [if_pos (decide_eq_true before), if_pos before, seed k j, if_neg unread]
    · rw [if_neg before, if_neg (by simpa only [decide_eq_true_eq] using before)]
  · rw [if_neg here, if_neg here, seed p q, if_neg here]

/-- A column that starts out as zero ends up as the solution. -/
theorem forward_solves (lu : Mat α n n) (pivots : Pivots n) {j : Fin n} {x : Mat α n n}
    (zero : ∀ p, x.entry p j = 0) (p : Fin n) :
    lu.SolvesLower (fun k => (lu.forward pivots j x).entry k j) (pick pivots j) p := by
  let partly (count : Nat) (y : Mat α n n) : Prop :=
    (∀ p : Fin n, count ≤ p → y.entry p j = 0) ∧
      ∀ p : Fin n, p < count → lu.SolvesLower (fun k => y.entry k j) (pick pivots j) p
  have done : partly n (lu.forward pivots j x) := by
    apply foldl_invariant partly
    · exact ⟨fun p _ => zero p, fun p small => absurd small (Nat.not_lt_zero _)⟩
    · rintro i y ⟨later, earlier⟩
      have solved := entry_forward_step lu pivots (later i (Nat.le_refl i))
      have kept (k : Fin n) (other : k ≠ i) : (lu.substitute j i (· < i)
          (if pivots.rows.get i = j then y.put i j 1 else y)).entry k j = y.entry k j := by
        rw [solved, if_neg (fun here => other here.1)]
      refine ⟨fun p le => ?_, fun p lt => ?_⟩
      · rw [kept p (Fin.ne_of_gt le)]
        exact later p (Nat.le_of_succ_le le)
      · rcases Nat.lt_succ_iff_lt_or_eq.mp lt with before | now
        · exact (earlier p before).congr fun k le =>
            kept k (Fin.ne_of_lt (Fin.lt_of_le_of_lt le before))
        · obtain rfl : p = i := Fin.ext now
          rw [SolvesLower, solved, if_pos ⟨rfl, rfl⟩]
          congr 1
          apply Finset.sum_congr rfl
          intro k _
          split
          · rename_i before
            rw [kept k (Fin.ne_of_lt before)]
          · rfl
  exact done.2 p p.isLt

/-- One step back divides what is left of a single entry by the diagonal. -/
theorem entry_backward_step (lu x : Mat α n n) (i j p q : Fin n) :
    ((lu.substitute j i (i < ·) x).put i j
      ((lu.substitute j i (i < ·) x).entry i j / lu.entry i i)).entry p q =
      if p = i ∧ q = j then
        (x.entry i j - ∑ k, if i < k then lu.entry i k * x.entry k j else 0) / lu.entry i i
      else x.entry p q := by
  have unselected : decide (i < i) = false := decide_eq_false (Fin.lt_irrefl i)
  have own : i = i ∧ j = j := ⟨rfl, rfl⟩
  rw [entry_put, entry_substitute lu x unselected, entry_substitute lu x unselected, if_pos own,
    residue_eq]
  by_cases here : p = i ∧ q = j
  · rw [if_pos here, if_pos here]
    simp only [decide_eq_true_eq]
  · rw [if_neg here, if_neg here, if_neg here]

/-- The right side of the system lies where the solution goes, and is read before it is
overwritten. -/
theorem backward_solves (lu y : Mat α n n) (j p : Fin n) :
    lu.SolvesUpper (fun k => (lu.backward j y).entry k j) (fun k => y.entry k j) p := by
  let partly (count : Nat) (x : Mat α n n) : Prop :=
    (∀ p : Fin n, p < count → x.entry p j = y.entry p j) ∧
      ∀ p : Fin n, count ≤ p → lu.SolvesUpper (fun k => x.entry k j) (fun k => y.entry k j) p
  have done : partly 0 (lu.backward j y) := by
    apply foldr_invariant partly
    · exact ⟨fun _ _ => rfl, fun p large => absurd p.isLt (Nat.not_lt_of_le large)⟩
    · rintro i x ⟨earlier, later⟩
      set after := (lu.substitute j i (i < ·) x).put i j
        ((lu.substitute j i (i < ·) x).entry i j / lu.entry i i) with hafter
      have solved (p q : Fin n) : after.entry p q =
          if p = i ∧ q = j then
            (y.entry i j - ∑ k, if i < k then lu.entry i k * x.entry k j else 0) / lu.entry i i
          else x.entry p q := by
        rw [hafter, entry_backward_step, earlier i (Nat.lt_succ_self i)]
      have kept (k : Fin n) (other : k ≠ i) : after.entry k j = x.entry k j := by
        rw [solved, if_neg (fun here => other here.1)]
      refine ⟨fun p lt => ?_, fun p le => ?_⟩
      · rw [kept p (Fin.ne_of_lt lt)]
        exact earlier p (Nat.lt_succ_of_lt lt)
      · rcases Nat.lt_or_eq_of_le le with larger | now
        · exact (later p larger).congr fun k le =>
            kept k (Fin.ne_of_gt (Fin.lt_of_lt_of_le larger le))
        · obtain rfl : i = p := Fin.ext now
          rw [SolvesUpper, solved, if_pos ⟨rfl, rfl⟩]
          congr 2
          apply Finset.sum_congr rfl
          intro k _
          split
          · rename_i larger
            rw [kept k (Fin.ne_of_gt larger)]
          · rfl
  exact done.2 p (Nat.zero_le p)

/-- The columns are independent: each is still zero when its turn comes, and stays
afterwards. -/
theorem inverse_solves (lu : Mat α n n) (pivots : Pivots n) (q : Fin n) :
    ∃ y : Fin n → α, (∀ p, lu.SolvesLower y (pick pivots q) p) ∧
      ∀ p, lu.SolvesUpper (fun k => (lu.inverse pivots).entry k q) y p := by
  let partly (count : Nat) (x : Mat α n n) : Prop :=
    (∀ p q : Fin n, count ≤ q → x.entry p q = 0) ∧ ∀ q : Fin n, q < count →
      ∃ y : Fin n → α, (∀ p, lu.SolvesLower y (pick pivots q) p) ∧
        ∀ p, lu.SolvesUpper (fun k => x.entry k q) y p
  have done : partly n (lu.inverse pivots) := by
    apply foldl_invariant partly
    · exact ⟨fun p q _ => entry_constant 0 p q, fun q small => absurd small (Nat.not_lt_zero _)⟩
    · rintro j x ⟨zero, earlier⟩
      have lower := forward_solves lu pivots fun p => zero p j (Nat.le_refl j)
      have upper := backward_solves lu (lu.forward pivots j x) j
      have kept (p q : Fin n) (other : q ≠ j) :
          (lu.backward j (lu.forward pivots j x)).entry p q = x.entry p q :=
        (entry_backward_of_ne lu _ other p).trans (entry_forward_of_ne lu pivots x other p)
      constructor
      · intro p q le
        rw [kept p q (Fin.ne_of_gt le)]
        exact zero p q (Nat.le_of_succ_le le)
      · intro q lt
        rcases Nat.lt_succ_iff_lt_or_eq.mp lt with before | now
        · obtain ⟨y, lowerSystem, upperSystem⟩ := earlier q before
          exact ⟨y, lowerSystem, fun p =>
            (upperSystem p).congr fun k _ => kept k q (Fin.ne_of_lt before)⟩
        · obtain rfl : q = j := Fin.ext now
          exact ⟨_, lower, upper⟩
  exact done.2 q q.isLt

theorem lower_mul_upper_mul_inverse {lu : Mat α n n} (nonzero : ∀ i, lu.entry i i ≠ 0)
    (pivots : Pivots n) :
    lu.lower.toMatrix * (lu.upper.toMatrix * (lu.inverse pivots).toMatrix) =
      (permutation pivots).toMatrix := by
  ext p q
  obtain ⟨y, lower, upper⟩ := inverse_solves lu pivots q
  have upperSolved : lu.upper.toMatrix.mulVec (fun k => (lu.inverse pivots).entry k q) = y := by
    funext i
    have here := upper i
    rw [SolvesUpper, eq_div_iff (nonzero i)] at here
    rw [upper_mulVec, mul_comm, here]
    exact sub_add_cancel _ _
  have lowerSolved : (lu.lower.toMatrix.mulVec y) p = pick pivots q p := by
    rw [lower_mulVec, lower p]
    exact add_sub_cancel _ _
  calc (lu.lower.toMatrix * (lu.upper.toMatrix * (lu.inverse pivots).toMatrix)) p q
      = (lu.lower.toMatrix.mulVec
          (lu.upper.toMatrix.mulVec fun k => (lu.inverse pivots).entry k q)) p := rfl
    _ = pick pivots q p := by rw [upperSolved, lowerSolved]
    _ = (permutation pivots : Mat α n n).toMatrix p q := by
        rw [toMatrix_apply, entry_permutation, pick]
        exact if_congr eq_comm rfl rfl

end Mat

/-- The permutation is invertible because both factors are, and can be cancelled. -/
theorem Elimination.mul_inverse_run {a : Mat α n n} (invertible : IsUnit a.toMatrix) :
    a.toMatrix * ((run a).matrix.inverse (run a).pivots).toMatrix = 1 := by
  let p : Matrix (Fin n) (Fin n) α := (Mat.permutation (run a).pivots : Mat α n n).toMatrix
  have nonzero := entry_run_diagonal_ne_zero invertible
  have factors : p * a.toMatrix =
      (run a).matrix.lower.toMatrix * (run a).matrix.upper.toMatrix :=
    (Mat.permutation_mul _ a).trans (lower_mul_upper_run a).symm
  have unit : IsUnit p := by
    rw [Matrix.isUnit_iff_isUnit_det, isUnit_iff_ne_zero]
    intro zero
    have product : (p * a.toMatrix).det = ∏ i, (run a).matrix.entry i i := by
      rw [factors, Matrix.det_mul, Mat.det_lower, Mat.det_upper, one_mul]
    rw [Matrix.det_mul, zero, zero_mul] at product
    exact Finset.prod_ne_zero_iff.mpr (fun i _ => nonzero i) product.symm
  apply unit.mul_left_cancel
  rw [mul_one, ← Matrix.mul_assoc, factors, Matrix.mul_assoc,
    Mat.lower_mul_upper_mul_inverse nonzero]

end RowMajor

import Mathlib
import RowMajor.Matrix.Cholesky
import RowMajor.Proofs.Fold

/-! The factor of a symmetric matrix, row by row. What is left of an entry depends on what lies
to the left in its two rows, so that a row keeps the equations it was found by. No law of the
scalars is used. -/
namespace RowMajor.Mat
variable {α : Type} [Scalar α] {n : Nat}

/-- Finds the entries of row `i` left of the diagonal. -/
def divideRow (a l : Mat α n n) (i : Fin n) : Mat α n n :=
  Fin.foldl n (fun l j => if j < i then l.put i j (a.remainder l i j / l.entry j j) else l) l

theorem choleskyRow_eq (a l : Mat α n n) (i : Fin n) :
    a.choleskyRow l i =
      (a.divideRow l i).put i i (Scalar.sqrt (a.remainder (a.divideRow l i) i i)) := rfl

/-- The factor after its first `count` rows. -/
def choleskyTo (a : Mat α n n) (count : Nat) : Mat α n n :=
  loopTo a.choleskyRow (constant n n 0) count

theorem choleskyTo_succ (a : Mat α n n) (i : Fin n) :
    a.choleskyTo (i + 1) = a.choleskyRow (a.choleskyTo i) i :=
  loopTo_succ a.choleskyRow _ i

theorem choleskyTo_all (a : Mat α n n) : a.choleskyTo n = a.cholesky :=
  loopTo_all a.choleskyRow _

/-- The number whose square root is taken in row `i`. -/
def radicand (a : Mat α n n) (i : Fin n) : α :=
  a.remainder (a.divideRow (a.choleskyTo i) i) i i

theorem remainder_congr {a l l' : Mat α n n} {i j : Fin n}
    (own : ∀ k < j, l'.entry i k = l.entry i k) (other : ∀ k < j, l'.entry j k = l.entry j k) :
    a.remainder l' i j = a.remainder l i j := by
  unfold remainder
  congr 1
  funext h k
  split
  · rename_i before
    rw [own k before, other k before]
  · rfl

/-- Only columns before `q` are read. -/
theorem remainder_put (a l : Mat α n n) {p i j q : Fin n} (le : q ≤ j) (value : α) :
    a.remainder (l.put p j value) i q = a.remainder l i q := by
  have unread (r k : Fin n) (before : k < q) : (l.put p j value).entry r k = l.entry r k := by
    rw [entry_put, if_neg fun here => Fin.ne_of_lt (Fin.lt_of_lt_of_le before le) here.2]
  exact remainder_congr (unread i) (unread q)

/-- The equations by which a row is found from the rows before it. -/
structure HasRow (a l : Mat α n n) (p : Fin n) : Prop where
  left : ∀ q < p, l.entry p q = a.remainder l p q / l.entry q q
  diagonal : l.entry p p = Scalar.sqrt (a.remainder l p p)
  right : ∀ q, p < q → l.entry p q = 0

theorem HasRow.congr {a l l' : Mat α n n} {p : Fin n} (h : a.HasRow l p)
    (same : ∀ i ≤ p, ∀ k, l'.entry i k = l.entry i k) : a.HasRow l' p := by
  have remainders (q : Fin n) (le : q ≤ p) : a.remainder l' p q = a.remainder l p q :=
    remainder_congr (fun k _ => same p (Fin.le_refl p) k) (fun k _ => same q le k)
  constructor
  · intro q before
    rw [same p (Fin.le_refl p), same q (Fin.le_of_lt before), remainders q (Fin.le_of_lt before)]
    exact h.left q before
  · rw [same p (Fin.le_refl p), remainders p (Fin.le_refl p)]
    exact h.diagonal
  · intro q after
    rw [same p (Fin.le_refl p)]
    exact h.right q after

/-- Nothing but the entries left of the diagonal changes, and each of them comes from those
before it. -/
theorem divideRow_spec (a l : Mat α n n) (i : Fin n) :
    (∀ p q, ¬ (p = i ∧ q < i) → (a.divideRow l i).entry p q = l.entry p q) ∧
      ∀ q < i, (a.divideRow l i).entry i q = a.remainder (a.divideRow l i) i q / l.entry q q := by
  let partly (count : Nat) (b : Mat α n n) : Prop :=
    (∀ p q, ¬ (p = i ∧ q < i) → b.entry p q = l.entry p q) ∧
      ∀ q < i, (q : Nat) < count → b.entry i q = a.remainder b i q / l.entry q q
  have done : partly n (a.divideRow l i) := by
    apply foldl_invariant partly
    · exact ⟨fun _ _ _ => rfl, fun q _ none => absurd none (Nat.not_lt_zero _)⟩
    · rintro j b ⟨others, found⟩
      split
      · rename_i inside
        have elsewhere (p q : Fin n) (apart : p = i → q ≠ j) (value : α) :
            (b.put i j value).entry p q = b.entry p q := by
          rw [entry_put, if_neg fun here => apart here.1 here.2]
        constructor
        · intro p q outside
          rw [elsewhere p q fun row col => outside ⟨row, col ▸ inside⟩]
          exact others p q outside
        · intro q left before
          rcases Nat.lt_succ_iff_lt_or_eq.mp before with earlier | now
          · rw [elsewhere i q fun _ => Fin.ne_of_lt earlier,
              remainder_put a b (Fin.le_of_lt earlier)]
            exact found q left earlier
          · obtain rfl : q = j := Fin.ext now
            rw [remainder_put a b (Fin.le_refl q), entry_put, if_pos ⟨rfl, rfl⟩,
              others q q fun here => Fin.ne_of_lt left here.1]
      · rename_i outside
        refine ⟨others, fun q left before => found q left ?_⟩
        have : q ≠ j := fun same => outside (same ▸ left)
        have := Fin.val_ne_of_ne this
        omega
  exact ⟨done.1, fun q left => done.2 q left q.isLt⟩

theorem entry_choleskyRow_of_ne (a l : Mat α n n) {i p : Fin n} (other : p ≠ i) (q : Fin n) :
    (a.choleskyRow l i).entry p q = l.entry p q := by
  rw [choleskyRow_eq, entry_put, if_neg fun here => other here.1]
  exact (a.divideRow_spec l i).1 p q fun here => other here.1

/-- The root comes last and is not read in its own row. -/
theorem remainder_choleskyRow (a l : Mat α n n) {i q : Fin n} (le : q ≤ i) :
    a.remainder (a.choleskyRow l i) i q = a.remainder (a.divideRow l i) i q := by
  rw [choleskyRow_eq, remainder_put a _ le]

theorem hasRow_choleskyRow {a l : Mat α n n} {i : Fin n} (blank : ∀ q, l.entry i q = 0) :
    a.HasRow (a.choleskyRow l i) i := by
  obtain ⟨others, found⟩ := a.divideRow_spec l i
  have row (q : Fin n) (off : q ≠ i) :
      (a.choleskyRow l i).entry i q = (a.divideRow l i).entry i q := by
    rw [choleskyRow_eq, entry_put, if_neg fun here => off here.2]
  constructor
  · intro q before
    rw [row q (Fin.ne_of_lt before), found q before,
      remainder_choleskyRow a l (Fin.le_of_lt before),
      entry_choleskyRow_of_ne a l (Fin.ne_of_lt before)]
  · rw [remainder_choleskyRow a l (Fin.le_refl i), choleskyRow_eq, entry_put, if_pos ⟨rfl, rfl⟩]
  · intro q after
    rw [row q (Fin.ne_of_gt after), others i q fun here => Fin.lt_asymm after here.2, blank q]

theorem choleskyTo_spec (a : Mat α n n) {count : Nat} (bound : count ≤ n) :
    (∀ p : Fin n, p < count → a.HasRow (a.choleskyTo count) p) ∧
      ∀ p : Fin n, count ≤ p → ∀ q, (a.choleskyTo count).entry p q = 0 := by
  refine loopTo_invariant (f := a.choleskyRow) (fun count l =>
    (∀ p : Fin n, p < count → a.HasRow l p) ∧
      ∀ p : Fin n, count ≤ p → ∀ q, l.entry p q = 0) ?_ ?_ bound
  · exact ⟨fun p none => absurd none (Nat.not_lt_zero _), fun p _ q => entry_constant 0 p q⟩
  · rintro i l ⟨rows, blank⟩
    constructor
    · intro p before
      rcases Nat.lt_succ_iff_lt_or_eq.mp before with earlier | now
      · exact (rows p earlier).congr fun k le q =>
          entry_choleskyRow_of_ne a l (Fin.ne_of_lt (Fin.lt_of_le_of_lt le earlier)) q
      · obtain rfl : p = i := Fin.ext now
        exact hasRow_choleskyRow (blank p (Nat.le_refl p))
    · intro p after q
      rw [entry_choleskyRow_of_ne a l (Fin.ne_of_gt after)]
      exact blank p (Nat.le_of_succ_le after) q

theorem hasRow_cholesky (a : Mat α n n) (p : Fin n) : a.HasRow a.cholesky p := by
  rw [← choleskyTo_all]
  exact (a.choleskyTo_spec (Nat.le_refl n)).1 p p.isLt

/-- A row is final once it has been found. -/
theorem entry_choleskyTo_settled (a : Mat α n n) {p : Fin n} {early late : Nat}
    (settled : p < early) (le : early ≤ late) (bound : late ≤ n) (q : Fin n) :
    (a.choleskyTo late).entry p q = (a.choleskyTo early).entry p q := by
  induction late, le using Nat.le_induction with
  | base => rfl
  | succ late le ih =>
      have before : p ≠ ⟨late, bound⟩ := Fin.ne_of_lt (Nat.lt_of_lt_of_le settled le)
      rw [a.choleskyTo_succ ⟨late, bound⟩, entry_choleskyRow_of_ne _ _ before]
      exact ih (Nat.le_of_succ_le bound)

theorem radicand_eq (a : Mat α n n) (i : Fin n) : a.radicand i = a.remainder a.cholesky i i := by
  have final (k : Fin n) : a.cholesky.entry i k = (a.choleskyRow (a.choleskyTo i) i).entry i k := by
    rw [← choleskyTo_all, ← choleskyTo_succ]
    exact entry_choleskyTo_settled a (Nat.lt_succ_self i) i.isLt (Nat.le_refl n) k
  rw [radicand, ← remainder_choleskyRow _ _ (Fin.le_refl i)]
  exact (remainder_congr (fun k _ => final k) (fun k _ => final k)).symm

end RowMajor.Mat

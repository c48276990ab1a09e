import Mathlib
import RowMajor.Matrix.Elimination
import RowMajor.Proofs.Fold

/-! What one step of an elimination does to every entry. No law of the scalars is
used: the statements hold of machine numbers as well. -/
namespace RowMajor.Mat
variable {α : Type} {n m : Nat}

/-- The matrix whose row `i` is row `order i`. -/
def reorder (a : Mat α n m) (order : Fin n → Fin n) : Mat α n m :=
  ofFn fun i j => a.entry (order i) j

theorem entry_reorder (a : Mat α n m) (order : Fin n → Fin n) (i : Fin n) (j : Fin m) :
    (a.reorder order).entry i j = a.entry (order i) j :=
  entry_ofFn _ i j

theorem reorder_id (a : Mat α n m) : a.reorder id = a :=
  ext_entry fun i j => entry_reorder a id i j

theorem reorder_reorder (a : Mat α n m) (first second : Fin n → Fin n) :
    (a.reorder first).reorder second = a.reorder (first ∘ second) :=
  ext_entry fun i j => by simp only [entry_reorder, Function.comp_apply]

theorem exchangeRows_eq_reorder (a : Mat α n m) (i k : Fin n) :
    a.exchangeRows i k = a.reorder (Equiv.swap i k) := by
  apply ext_entry
  intro p q
  rw [entry_exchangeRows, entry_reorder, Equiv.swap_apply_def]
  split
  · rfl
  · split <;> rfl

variable [Scalar α]

/-- How often row `i` is taken from row `p`. -/
def multiplier (a : Mat α n n) (i p : Fin n) : α :=
  a.entry p i / a.entry i i

theorem entry_clear (a : Mat α n n) {i j : Fin n} (below : i < j) (p q : Fin n) :
    (a.clear i j).entry p q =
      if p = j then
        if q = i then a.multiplier i j
        else if i < q then a.entry j q - a.multiplier i j * a.entry i q
        else a.entry j q
      else a.entry p q := by
  let partly (count : Nat) (b : Mat α n n) : Prop :=
    ∀ p q, b.entry p q =
      if p = j then
        if q = i then a.multiplier i j
        else if i < q ∧ q < count then a.entry j q - a.multiplier i j * a.entry i q
        else a.entry j q
      else a.entry p q
  have done : partly n (a.clear i j) := by
    apply foldl_invariant partly
    · intro p q
      rw [entry_put]
      by_cases row : p = j
      · by_cases col : q = i <;> simp [row, col, multiplier]
      · simp [row]
    · intro k b h p q
      split
      · rename_i right
        -- The entries that the reduction reads are those that it has not reached.
        have upper : b.entry i k = a.entry i k := by
          rw [h, if_neg (Fin.ne_of_lt below)]
        have here : b.entry j k = a.entry j k := by
          rw [h, if_pos rfl, if_neg (Fin.ne_of_gt right), if_neg (by omega)]
        rw [entry_put, h p q, upper, here]
        by_cases row : p = j
        · by_cases col : q = k
          · subst col
            simp [row, Fin.ne_of_gt right, right, multiplier]
          · have same : (q : Nat) < k + 1 ↔ (q : Nat) < k := by
              have := Fin.val_ne_of_ne col
              omega
            simp [row, col, same]
        · simp [row]
      · rename_i left
        have same : (i < q ∧ (q : Nat) < k + 1) ↔ (i < q ∧ (q : Nat) < k) := by
          constructor <;> rintro ⟨right, small⟩ <;> exact ⟨right, by omega⟩
        rw [h p q]
        simp only [same]
  rw [done p q]
  simp only [q.isLt, and_true]

theorem entry_eliminate (a : Mat α n n) (i p q : Fin n) :
    (a.eliminate i).entry p q =
      if i < p then
        if q = i then a.multiplier i p
        else if i < q then a.entry p q - a.multiplier i p * a.entry i q
        else a.entry p q
      else a.entry p q := by
  let partly (count : Nat) (b : Mat α n n) : Prop :=
    ∀ p q, b.entry p q =
      if i < p ∧ p < count then
        if q = i then a.multiplier i p
        else if i < q then a.entry p q - a.multiplier i p * a.entry i q
        else a.entry p q
      else a.entry p q
  have done : partly n (a.eliminate i) := by
    apply foldl_invariant partly
    · intro p q
      rw [if_neg (fun h => Nat.not_lt_zero _ h.2)]
    · intro j b h p q
      split
      · rename_i below
        have pivot (q : Fin n) : b.entry i q = a.entry i q := by
          rw [h, if_neg (fun h => Fin.lt_irrefl i h.1)]
        have here (q : Fin n) : b.entry j q = a.entry j q := by
          rw [h, if_neg (fun h => Nat.lt_irrefl _ h.2)]
        have factor : b.multiplier i j = a.multiplier i j := by
          rw [multiplier, multiplier, pivot, here]
        rw [entry_clear b below, factor, pivot, here, h p q]
        by_cases row : p = j
        · subst row
          simp [below]
        · have same : (p : Nat) < j + 1 ↔ (p : Nat) < j := by
            have := Fin.val_ne_of_ne row
            omega
          simp [row, same]
      · rename_i above
        have same : (i < p ∧ (p : Nat) < j + 1) ↔ (i < p ∧ (p : Nat) < j) := by
          constructor <;> rintro ⟨below, small⟩ <;> exact ⟨below, by omega⟩
        rw [h p q]
        simp only [same]
  rw [done p q]
  simp only [p.isLt, and_true]

/-- A step clears the rows below the pivot one like the other, so that it does not
matter in which order they lie. -/
theorem eliminate_reorder (a : Mat α n n) {i : Fin n} {order : Fin n → Fin n}
    (pivot : order i = i) (below : ∀ p, i < order p ↔ i < p) :
    (a.reorder order).eliminate i = (a.eliminate i).reorder order := by
  apply ext_entry
  intro p q
  have factor : (a.reorder order).multiplier i p = a.multiplier i (order p) := by
    rw [multiplier, multiplier, entry_reorder, entry_reorder, pivot]
  rw [entry_reorder, entry_eliminate, entry_eliminate, factor, entry_reorder, entry_reorder, pivot]
  simp only [below p]

theorem le_pivotRow (a : Mat α n n) (i : Fin n) : i ≤ a.pivotRow i := by
  have kept : i ≤ (Fin.foldl n (fun (best : α × Fin n) k =>
      if i ≤ k then
        if Scalar.less best.1 (Scalar.abs (a.entry k i)) then (Scalar.abs (a.entry k i), k)
        else best
      else best) (-1, i)).2 := by
    apply foldl_invariant fun _ (best : α × Fin n) => i ≤ best.2
    · exact Fin.le_refl i
    · intro k best h
      split
      · split
        · assumption
        · exact h
      · exact h
  exact kept

end RowMajor.Mat

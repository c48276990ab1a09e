import Mathlib
import RowMajor.Proofs.Cholesky.Rows

/-! What a row of the triangular factor depends on: that row of the matrix and those above it,
up to the diagonal. Two matrices that agree there, whatever their sizes, have the same row. No law
of the scalars is used. -/
namespace RowMajor.Mat
variable {α : Type} {n m count : Nat}

/-- The first `count` rows agree on and left of the diagonal, as far as both matrices have them. -/
def SameLower (count : Nat) (a : Mat α n n) (b : Mat α m m) : Prop :=
  ∀ (i j : Fin n) (p q : Fin m), (i : Nat) = p → (j : Nat) = q → j ≤ i → i < count →
    a.entry i j = b.entry p q

def SameRows {l : Nat} (count : Nat) (a b : Mat α n l) : Prop :=
  ∀ (i : Fin n) (j : Fin l), i < count → a.entry i j = b.entry i j

/-- The first rows and columns. -/
def corner (a : Mat α n n) (le : m ≤ n) : Mat α m m :=
  ofFn fun i j => a.entry (i.castLE le) (j.castLE le)

theorem entry_corner (a : Mat α n n) (le : m ≤ n) (i j : Fin m) :
    (a.corner le).entry i j = a.entry (i.castLE le) (j.castLE le) :=
  entry_ofFn ..

theorem SameLower.mono {early late : Nat} {a : Mat α n n} {b : Mat α m m} (h : SameLower late a b)
    (le : early ≤ late) : SameLower early a b :=
  fun i j p q row col left before => h i j p q row col left (Nat.lt_of_lt_of_le before le)

theorem sameLower_corner (a : Mat α n n) (le : m ≤ n) : SameLower count a (a.corner le) := by
  intro i j p q row col _ _
  obtain rfl : i = p.castLE le := Fin.ext row
  obtain rfl : j = q.castLE le := Fin.ext col
  exact (entry_corner ..).symm

variable [Scalar α]

theorem remainder_eq_loopTo (a l : Mat α n n) (i j : Fin n) :
    a.remainder l i j = loopTo (fun h k => h - l.entry i k * l.entry j k) (a.entry i j) j :=
  foldl_below (fun h k => h - l.entry i k * l.entry j k) _ (Nat.le_of_lt j.isLt)

/-- What is left of an entry comes from the entry itself and what lies to the left in two rows. -/
theorem remainder_same {a l : Mat α n n} {b r : Mat α m m} {i j : Fin n} {p q : Fin m}
    (col : (j : Nat) = q) (entries : a.entry i j = b.entry p q)
    (own : ∀ (k : Fin n) (c : Fin m), (k : Nat) = c → k < j → l.entry i k = r.entry p c)
    (other : ∀ (k : Fin n) (c : Fin m), (k : Nat) = c → k < j → l.entry j k = r.entry q c) :
    a.remainder l i j = b.remainder r p q := by
  rw [remainder_eq_loopTo, remainder_eq_loopTo, entries, ← col]
  apply loopTo_congr (Nat.le_of_lt j.isLt) (col ▸ Nat.le_of_lt q.isLt)
  intro k c h equal before
  rw [own k c equal before, other k c equal before]

section Factor
variable {a l : Mat α n n} {b r : Mat α m m}

/-- A row follows from those above it, from left to right. -/
theorem HasRow.same {i : Fin n} {p : Fin m} (hl : a.HasRow l i) (hr : b.HasRow r p)
    (row : (i : Nat) = p) (same : SameLower (i + 1) a b) (above : SameLower i l r) (j : Fin n)
    (q : Fin m) (col : (j : Nat) = q) (le : j ≤ i) : l.entry i j = r.entry p q := by
  induction j using WellFoundedLT.induction generalizing q with
  | ind j ih =>
      have own (k : Fin n) (c : Fin m) (equal : (k : Nat) = c) (before : k < j) :
          l.entry i k = r.entry p c :=
        ih k before c equal (Fin.le_trans (Fin.le_of_lt before) le)
      have entries := same i j p q row col le (Nat.lt_succ_self i)
      rcases Fin.lt_or_eq_of_le le with left | rfl
      · have remainders := remainder_same col entries own
          fun k c equal before => above j k q c col equal (Fin.le_of_lt before) left
        rw [hl.left j left, hr.left q (Fin.lt_def.mpr (col ▸ row ▸ left)), remainders,
          above j j q q col col (Fin.le_refl j) left]
      · obtain rfl : p = q := Fin.ext (row.symm.trans col)
        rw [hl.diagonal, hr.diagonal, remainder_same col entries own own]

theorem SameLower.cholesky (same : SameLower count a b) :
    SameLower count a.cholesky b.cholesky := by
  induction count with
  | zero =>
      intro i _ _ _ _ _ _ none
      exact absurd none (Nat.not_lt_zero i)
  | succ count ih =>
      have above := ih (same.mono (Nat.le_succ count))
      intro i j p q row col le before
      rcases Nat.lt_succ_iff_lt_or_eq.mp before with earlier | rfl
      · exact above i j p q row col le earlier
      · exact (a.hasRow_cholesky i).same (b.hasRow_cholesky p) row same above j q col le

end Factor

theorem SameLower.rows_cholesky {a b : Mat α n n} (same : SameLower count a b) :
    SameRows count a.cholesky b.cholesky := by
  intro i j before
  rcases Fin.lt_or_le i j with right | le
  · rw [(a.hasRow_cholesky i).right j right, (b.hasRow_cholesky i).right j right]
  · exact same.cholesky i j i j rfl rfl le before

/-- Nothing above the diagonal is read. -/
theorem SameLower.cholesky_eq {a b : Mat α n n} (same : SameLower n a b) :
    a.cholesky = b.cholesky :=
  ext_entry fun i j => same.rows_cholesky i j i.isLt

theorem cholesky_corner (a : Mat α n n) (le : m ≤ n) :
    (a.corner le).cholesky = a.cholesky.corner le := by
  apply ext_entry
  intro p q
  rw [entry_corner]
  rcases Fin.lt_or_le p q with right | left
  · rw [((a.corner le).hasRow_cholesky p).right q right,
      (a.hasRow_cholesky (p.castLE le)).right (q.castLE le) right]
  · have same : SameLower m a.cholesky (a.corner le).cholesky := (a.sameLower_corner le).cholesky
    exact (same (p.castLE le) (q.castLE le) p q rfl rfl left p.isLt).symm

end RowMajor.Mat

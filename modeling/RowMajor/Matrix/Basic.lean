import RowMajor.Scalar

/-! Matrices as values, and the elementary steps that the factorizations are made
of. Each step comes with what it does to a single entry. -/
namespace RowMajor

/-- The entries lie row after row. A matrix without entries takes no room, however
many rows it has. -/
structure Mat (α : Type) (n m : Nat) where
  cells : Vector α (n * m)

namespace Mat
variable {α : Type} {n m : Nat}

theorem place_lt (i : Fin n) (j : Fin m) : i * m + j < n * m :=
  calc i * m + j < i * m + m := Nat.add_lt_add_left j.isLt _
    _ = (i + 1) * m := (Nat.succ_mul ..).symm
    _ ≤ n * m := Nat.mul_le_mul_right m i.isLt

theorem row_lt (p : Fin (n * m)) : p / m < n :=
  Nat.div_lt_of_lt_mul (Nat.mul_comm n m ▸ p.isLt)

theorem col_lt (p : Fin (n * m)) : p % m < m :=
  Nat.mod_lt _ (Nat.pos_of_lt_mul_left p.isLt)

/-- Where the entry in a row and a column lies. -/
def place (i : Fin n) (j : Fin m) : Fin (n * m) :=
  ⟨i * m + j, place_lt i j⟩

def rowOf (p : Fin (n * m)) : Fin n :=
  ⟨p / m, row_lt p⟩

def colOf (p : Fin (n * m)) : Fin m :=
  ⟨p % m, col_lt p⟩

theorem rowOf_place (i : Fin n) (j : Fin m) : rowOf (place i j) = i := by
  have pos : 0 < m := Nat.lt_of_le_of_lt (Nat.zero_le _) j.isLt
  apply Fin.ext
  simp only [rowOf, place]
  rw [Nat.mul_comm, Nat.mul_add_div pos, Nat.div_eq_of_lt j.isLt, Nat.add_zero]

theorem colOf_place (i : Fin n) (j : Fin m) : colOf (place i j) = j := by
  apply Fin.ext
  simp only [colOf, place]
  rw [Nat.mul_comm, Nat.mul_add_mod, Nat.mod_eq_of_lt j.isLt]

theorem place_rowOf_colOf (p : Fin (n * m)) : place (rowOf p) (colOf p) = p := by
  apply Fin.ext
  simp only [rowOf, colOf, place]
  rw [Nat.mul_comm, Nat.div_add_mod]

theorem place_inj {i p : Fin n} {j q : Fin m} : place i j = place p q ↔ i = p ∧ j = q := by
  constructor
  · intro same
    have row := congrArg rowOf same
    have col := congrArg colOf same
    rw [rowOf_place, rowOf_place] at row
    rw [colOf_place, colOf_place] at col
    exact ⟨row, col⟩
  · rintro ⟨rfl, rfl⟩
    rfl

def entry (a : Mat α n m) (i : Fin n) (j : Fin m) : α :=
  a.cells.get (place i j)

def ofFn (f : Fin n → Fin m → α) : Mat α n m :=
  ⟨Vector.ofFn fun p => f (rowOf p) (colOf p)⟩

def constant (n m : Nat) (value : α) : Mat α n m :=
  ⟨Vector.replicate (n * m) value⟩

def put (a : Mat α n m) (i : Fin n) (j : Fin m) (value : α) : Mat α n m :=
  ⟨a.cells.set (place i j) value (place i j).isLt⟩

/-- Writes every entry, one after the other in row-major order, over what was there. -/
def writeAll (a : Mat α n m) (f : Fin n → Fin m → α) : Mat α n m :=
  Fin.foldl (n * m) (fun a p => a.put (rowOf p) (colOf p) (f (rowOf p) (colOf p))) a

def exchangeRows (a : Mat α n m) (i k : Fin n) : Mat α n m :=
  ofFn fun p q => a.entry (if p = i then k else if p = k then i else p) q

def row (a : Mat α n m) (i : Fin n) : Vector α m :=
  Vector.ofFn fun j => a.entry i j

def column (a : Mat α n m) (j : Fin m) : Vector α n :=
  Vector.ofFn fun i => a.entry i j

def putColumn (a : Mat α n m) (j : Fin m) (column : Vector α n) : Mat α n m :=
  Fin.foldl n (fun a i => a.put i j (column.get i)) a

theorem get_eq (v : Vector α n) (i : Fin n) : v.get i = v[i] := rfl

theorem ext_entry {a b : Mat α n m} (same : ∀ i j, a.entry i j = b.entry i j) : a = b := by
  obtain ⟨as⟩ := a
  obtain ⟨bs⟩ := b
  congr 1
  apply Vector.ext
  intro p h
  have here := same (rowOf ⟨p, h⟩) (colOf ⟨p, h⟩)
  simpa only [entry, place_rowOf_colOf, get_eq, Fin.getElem_fin] using here

theorem entry_ofFn (f : Fin n → Fin m → α) (i : Fin n) (j : Fin m) :
    (ofFn f).entry i j = f i j := by
  simp only [entry, ofFn, get_eq, Fin.getElem_fin, Vector.getElem_ofFn]
  exact congr (congrArg f (rowOf_place i j)) (colOf_place i j)

theorem entry_constant (value : α) (i : Fin n) (j : Fin m) :
    (constant n m value).entry i j = value := by
  simp only [entry, constant, get_eq, Fin.getElem_fin, Vector.getElem_replicate]

theorem entry_put (a : Mat α n m) (i p : Fin n) (j q : Fin m) (value : α) :
    (a.put i j value).entry p q = if p = i ∧ q = j then value else a.entry p q := by
  simp only [entry, put, get_eq, Fin.getElem_fin, Vector.getElem_set]
  by_cases same : p = i ∧ q = j
  · rw [if_pos same, if_pos (by rw [same.1, same.2])]
  · rw [if_neg same, if_neg]
    intro h
    exact same (place_inj.mp (Fin.ext h.symm))

theorem entry_exchangeRows (a : Mat α n m) (i k p : Fin n) (q : Fin m) :
    (a.exchangeRows i k).entry p q =
      if p = i then a.entry k q else if p = k then a.entry i q else a.entry p q := by
  rw [exchangeRows, entry_ofFn]
  split
  · rfl
  · split <;> rfl

theorem get_row (a : Mat α n m) (i : Fin n) (j : Fin m) : (a.row i).get j = a.entry i j := by
  simp only [row, get_eq, Fin.getElem_fin, Vector.getElem_ofFn]

theorem get_column (a : Mat α n m) (i : Fin n) (j : Fin m) :
    (a.column j).get i = a.entry i j := by
  simp only [column, get_eq, Fin.getElem_fin, Vector.getElem_ofFn]

variable [Scalar α]

def productEntry {l : Nat} (a : Mat α l n) (b : Mat α n m) (i : Fin l) (j : Fin m) : α :=
  Fin.foldl n (fun acc k => acc + a.entry i k * b.entry k j) 0

def product {l : Nat} (a : Mat α l n) (b : Mat α n m) : Mat α l m :=
  ofFn (a.productEntry b)

def transpose (a : Mat α n m) : Mat α m n :=
  ofFn fun j i => a.entry i j

/-- The image of a vector, one row after the other. -/
def apply (a : Mat α n m) (x : Vector α m) : Vector α n :=
  Vector.ofFn fun i => Scalar.dot (a.row i).toList x.toList

/-- The products of the columns with each other. -/
def columnGram (a : Mat α n m) : Mat α m m :=
  ofFn fun i j => Scalar.sum ((List.finRange n).map fun k => a.entry k i * a.entry k j)

/-- The products of the rows with each other. -/
def rowGram (a : Mat α n m) : Mat α n n :=
  ofFn fun i j => Scalar.sum ((List.finRange m).map fun k => a.entry i k * a.entry j k)

end Mat
end RowMajor

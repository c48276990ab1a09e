import RowMajor.Matrix.Basic

/-! Orthogonal columns by the modified Gram-Schmidt process: each projection is
taken from what the earlier ones have left. Columns that depend on earlier ones
leave a division by zero. -/
namespace RowMajor
variable {α : Type} [Scalar α] {n : Nat}

/-- The two factors, as far as they are finished, and a copy of the finished columns, which
projections are taken on. -/
structure Orthogonal (α : Type) (n : Nat) where
  q : Mat α n n
  r : Mat α n n
  copy : Vector (Vector α n) n

namespace Orthogonal

/-- Takes the projection on column `i` from `v` and records it at `(i, j)`. -/
def project (j : Fin n) (state : Vector α n × Orthogonal α n) (i : Fin n) :
    Vector α n × Orthogonal α n :=
  if i < j then
    let (v, f) := state
    let qi := f.copy.get i
    let rij := Scalar.dot qi.toList v.toList
    (v.zipWith (fun vk qk => vk - rij * qk) qi, { f with r := f.r.put i j rij })
  else state

def column (a : Mat α n n) (f : Orthogonal α n) (j : Fin n) : Orthogonal α n :=
  let (v, f) := Fin.foldl n (project j) (a.column j, f)
  let rjj := Scalar.norm v.toList
  let qj := v.map (· / rjj)
  { q := f.q.putColumn j qj, r := f.r.put j j rjj, copy := f.copy.set j qj j.isLt }

def start (n : Nat) : Orthogonal α n :=
  ⟨.constant n n 0, .constant n n 0, .replicate n (.replicate n 0)⟩

/-- Both factors, column by column. -/
def run (a : Mat α n n) : Orthogonal α n :=
  Fin.foldl n (column a) (start n)

/-- The same over whatever the place of the first factor held. Only the second one is
cleared beforehand. -/
def runOver (q a : Mat α n n) : Orthogonal α n :=
  Fin.foldl n (column a) { start n with q }

end Orthogonal
end RowMajor

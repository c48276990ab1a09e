import RowMajor.Scalar
import RowMajor.Word

/-! The row order that an elimination with exchanges ends up with. -/
namespace RowMajor

/-- Row `i` of the factored matrix was row `rows[i]` of the input. -/
structure Pivots (n : Nat) where
  rows : Vector (Fin n) n
  swaps : Nat
deriving DecidableEq

namespace Pivots
variable {n : Nat}

/-- The order of the input, before any exchange. -/
def identity (n : Nat) : Pivots n :=
  ⟨Vector.ofFn id, 0⟩

/-- The same where memory may have no room for it. -/
def create (n : Nat) : Except Fault (Pivots n) := do
  Word.requireRoom n
  return identity n

def exchange (pivots : Pivots n) (i k : Fin n) : Pivots n :=
  ⟨pivots.rows.swap i k i.isLt k.isLt, pivots.swaps + 1⟩

def indices (pivots : Pivots n) : List Nat :=
  pivots.rows.toList.map (·.val)

/-- One for an even number of exchanges, minus one for an odd number. -/
def sign {α : Type} [Scalar α] (pivots : Pivots n) : α :=
  if pivots.swaps % 2 = 0 then 1 else -1

/-- The row order, followed by the number of exchanges. -/
def slots (pivots : Pivots n) : List Nat :=
  pivots.indices ++ [pivots.swaps]

end Pivots

/-- Pivots together with their dimension. -/
abbrev AnyPivots := (n : Nat) × Pivots n

end RowMajor

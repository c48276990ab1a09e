import RowMajor.Algebra.Named
import RowMajor.Decimal.Style

/-! Signed machine integers as a ring. A result that does not fit is a fault. -/
namespace RowMajor

/-- How many values `bits` bits have. -/
def valueCount (bits : Nat) : Nat :=
  1 <<< bits

theorem valueCount_pos (bits : Nat) : 0 < valueCount bits := by
  rw [valueCount, Nat.one_shiftLeft]
  exact Nat.two_pow_pos bits

/-- The integers that fit into `bits` bits in two's complement. -/
structure MachineInt (bits : Nat) where
  val : Int
  lower : -((valueCount bits / 2 : Nat) : Int) ≤ val
  upper : val < (((valueCount bits + 1) / 2 : Nat) : Int)
deriving DecidableEq

namespace MachineInt
variable {bits : Nat}

/-- The integer with the same last `bits` bits. -/
def ofInt (v : Int) : MachineInt bits where
  val := v.bmod (valueCount bits)
  lower := by
    have := Int.le_bmod (valueCount_pos bits) (x := v)
    omega
  upper := by
    have := Int.bmod_lt (valueCount_pos bits) (x := v)
    omega

instance : BEq (MachineInt bits) := ⟨fun a b => a.val == b.val⟩

instance : Decimal.NumberText (MachineInt bits) :=
  ⟨fun n => toString n.val, fun n => toString n.val⟩

variable {m : Type → Type} [Monad m] [MonadExceptOf Fault m]

/-- The exact result of an operation, if it fits. -/
def checked (operation : Arithmetic) (v : Int) : m (MachineInt bits) :=
  if h : -((valueCount bits / 2 : Nat) : Int) ≤ v ∧
      v < (((valueCount bits + 1) / 2 : Nat) : Int) then
    pure ⟨v, h.1, h.2⟩
  else throw (Fault.overflow operation)

end MachineInt

variable {m : Type → Type} [Monad m] [MonadExceptOf Fault m] {bits : Nat}

def integerOps : RingOps m (MachineInt bits) where
  zero := .ofInt 0
  one := .ofInt 1
  add left right := MachineInt.checked .add (left.val + right.val)
  neg arg := MachineInt.checked .negate (-arg.val)
  multiply left right := MachineInt.checked .multiply (left.val * right.val)

def integerRing : ElementAlgebra m (MachineInt bits) where
  name := "IntRing"
  level := .ring integerOps
  constant? := (integerOps (m := m)).constant?

end RowMajor

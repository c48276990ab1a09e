import RowMajor.Algebra.Named
import RowMajor.Decimal.Binary

/-! Integers modulo a natural number: a group for any modulus, and the field of a
prime one. Arguments need not be reduced, results always are. -/
namespace RowMajor.Residue

/-- The whole part of a float, cut to a range. What is not a number counts as zero. -/
def wholePart (low high : Int) (x : Float) : Int :=
  if x.isNaN then 0
  else if x.isInf then (if x < 0 then low else high)
  else
    let whole : Int := (Decimal.Binary.ofBits Decimal.binary64 x.toBits.toNat).floor
    max low (min high (if x < 0 then -whole else whole))

/-- `base ^ exponent` modulo `n`, by repeated squaring. -/
def power (n : Nat) (base : Int) (exponent : Nat) : Int :=
  if exponent = 0 then 1 % n
  else
    let half := power n base (exponent / 2)
    if exponent % 2 = 0 then half * half % n else half * half % n * base % n
termination_by exponent

variable {m : Type → Type} [Monad m]

def groupOps (n : Nat) : GroupOps m Int where
  zero := 0
  add left right := pure ((left + right) % n)
  neg arg := pure (-arg % n)

/-- For a prime `p` the power `p - 2` inverts; zero has no inverse and gives zero. -/
def fieldOps (p : Nat) : FieldOps m Int where
  toGroupOps := groupOps p
  one := 1
  multiply left right := pure (left * right % p)
  divide left right := pure (left * power p right (p - 2) % p)
  scale arg value := pure (arg * wholePart (-0x8000000000000000) 0x7fffffffffffffff value % p)

/-- Exponents are counted in halves, so that `sqrt` is the first power. -/
def powerOps (p : Nat) : PowerOps m Int where
  power arg exponent := pure (power p arg (wholePart 0 0xffffffff (2 * exponent)).toNat)

/-- Integers modulo seven, with addition only. -/
def sevenGroup : ElementAlgebra m Int where
  name := "Mod7"
  level := .group (groupOps 7)

/-- The field with seventeen elements. -/
def seventeenField : ElementAlgebra m Int where
  name := "Z17"
  level := .field (fieldOps 17)
  powers := some (powerOps 17)
  constant? := (fieldOps (m := m) 17).constant?

end RowMajor.Residue

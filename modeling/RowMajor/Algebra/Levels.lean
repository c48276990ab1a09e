import RowMajor.Fault
import RowMajor.Algebra.Operation

/-! What an element algebra can do, by level. A ring can do what a group can, a
field what a ring can. Operations run in a monad `m`: the identity where every
result exists, faults where it may not. Fields with a default are defined by the
others unless an algebra has something better. -/
namespace RowMajor

structure GroupOps (m : Type → Type) [Monad m] (α : Type) where
  zero : α
  add : α → α → m α
  neg : α → m α
  sub : α → α → m α := fun left right => do add left (← neg right)
  plus : α → m α := pure

structure RingOps (m : Type → Type) [Monad m] (α : Type) extends GroupOps m α where
  one : α
  multiply : α → α → m α

structure FieldOps (m : Type → Type) [Monad m] (α : Type) extends RingOps m α where
  divide : α → α → m α
  scale : α → Float → m α
  reciprocal : α → m α := fun arg => divide one arg
  number : Float → m α := fun value => scale one value

structure PowerOps (m : Type → Type) [Monad m] (α : Type) where
  power : α → Float → m α
  sqrt : α → m α := fun arg => power arg 0.5

structure ExponentialOps (m : Type → Type) [Monad m] (α : Type) where
  exp : α → m α
  ln : α → m α

variable {m : Type → Type} [Monad m] {α : Type}

def GroupOps.unary? (ops : GroupOps m α) : UnaryOp → Option (α → m α)
  | .plus => some ops.plus
  | .minus => some ops.neg
  | _ => none

def PowerOps.unary? (ops : PowerOps m α) : UnaryOp → Option (α → m α)
  | .sqrt => some ops.sqrt
  | _ => none

def ExponentialOps.unary? (ops : ExponentialOps m α) : UnaryOp → Option (α → m α)
  | .exp => some ops.exp
  | .ln => some ops.ln
  | _ => none

def GroupOps.binary? (ops : GroupOps m α) : BinaryOp → Option (α → α → m α)
  | .plus => some ops.add
  | .minus => some ops.sub
  | _ => none

/-- The ring's own token, else what the group below it knows. -/
def RingOps.binary? (ops : RingOps m α) : BinaryOp → Option (α → α → m α)
  | .times => some ops.multiply
  | op => ops.toGroupOps.binary? op

/-- The field's own token, else what the ring below it knows. -/
def FieldOps.binary? (ops : FieldOps m α) : BinaryOp → Option (α → α → m α)
  | .div => some ops.divide
  | op => ops.toRingOps.binary? op

def RingOps.constant? (ops : RingOps m α) : String → Option α
  | "zero" => some ops.zero
  | "one" => some ops.one
  | _ => none

end RowMajor

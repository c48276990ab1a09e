import RowMajor.Algebra.Levels

/-! Element algebras with a name, whose operations and constants are found by
name. -/
namespace RowMajor
variable {m : Type → Type} [Monad m] {α : Type}

/-- The highest level that an algebra reaches. -/
inductive AlgebraLevel (m : Type → Type) [Monad m] (α : Type) where
  | bare
  | group (ops : GroupOps m α)
  | ring (ops : RingOps m α)
  | field (ops : FieldOps m α)

namespace AlgebraLevel

def group? : AlgebraLevel m α → Option (GroupOps m α)
  | bare => none
  | group ops => some ops
  | ring ops => some ops.toGroupOps
  | field ops => some ops.toGroupOps

def ring? : AlgebraLevel m α → Option (RingOps m α)
  | bare | group _ => none
  | ring ops => some ops
  | field ops => some ops.toRingOps

def field? : AlgebraLevel m α → Option (FieldOps m α)
  | bare | group _ | ring _ => none
  | field ops => some ops

def binary? : AlgebraLevel m α → BinaryOp → Option (α → α → m α)
  | bare, _ => none
  | group ops, op => ops.binary? op
  | ring ops, op => ops.binary? op
  | field ops, op => ops.binary? op

end AlgebraLevel

structure ElementAlgebra (m : Type → Type) [Monad m] (α : Type) where
  name : String
  level : AlgebraLevel m α := .bare
  powers : Option (PowerOps m α) := none
  exponentials : Option (ExponentialOps m α) := none
  constant? : String → Option α := fun _ => none

namespace ElementAlgebra
variable (algebra : ElementAlgebra m α)

/-- Exponentials are asked first, then powers, then the group. -/
def unary? (op : UnaryOp) : Option (α → m α) :=
  (algebra.exponentials.bind (·.unary? op))
    <|> (algebra.powers.bind (·.unary? op))
    <|> (algebra.level.group?.bind (·.unary? op))

def binary? (op : BinaryOp) : Option (α → α → m α) :=
  algebra.level.binary? op

def constant (symbol : String) : Except LookupError α :=
  match algebra.constant? symbol with
  | some value => .ok value
  | none => .error (.unboundSymbol symbol algebra.name)

def unaryFunction (name : String) : Except LookupError (α → m α) :=
  match (UnaryOp.ofSymbol? name).bind algebra.unary? with
  | some f => .ok f
  | none => .error (.unsupportedOperation name algebra.name)

def binaryFunction (name : String) : Except LookupError (α → α → m α) :=
  match (BinaryOp.ofSymbol? name).bind algebra.binary? with
  | some f => .ok f
  | none => .error (.unsupportedOperation name algebra.name)

def unary (name : String) (arg : α) : ExceptT LookupError m α :=
  match algebra.unaryFunction name with
  | .ok f => ExceptT.lift (f arg)
  | .error unknown => throw unknown

def binary (name : String) (left right : α) : ExceptT LookupError m α :=
  match algebra.binaryFunction name with
  | .ok f => ExceptT.lift (f left right)
  | .error unknown => throw unknown

end ElementAlgebra
end RowMajor

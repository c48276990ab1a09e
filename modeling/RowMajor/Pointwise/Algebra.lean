import RowMajor.Pointwise.Kernel
import RowMajor.Structure
import RowMajor.Algebra.Named

/-! The operations of an element algebra, lifted to structures of one shape. The
operands may be stored or computed; results are stored. -/
namespace RowMajor
variable {m : Type → Type} [Monad m] [MonadLiftT (Except Fault) m] {α : Type}

namespace Structure

def map (s : Structure α) (f : α → m α) : Attempt m (Tensor α) := do
  let t ← (liftM s.flat : m (Tensor α))
  Pointwise.map t f

def mapIndexed (s : Structure α) (f : List Nat → α → m α) : Attempt m (Tensor α) := do
  let t ← (liftM s.flat : m (Tensor α))
  Pointwise.mapIndexed t f

def zip (left right : Structure α) (f : α → α → m α) : Attempt m (Tensor α) := do
  let a ← (liftM left.flat : m (Tensor α))
  let b ← (liftM right.flat : m (Tensor α))
  Pointwise.zip a b f

end Structure

namespace GroupOps
variable (ops : GroupOps m α)

def zeros (shape : List Nat) : Except Fault (Tensor α) :=
  Tensor.filled shape ops.zero

def addAll (left right : Structure α) : Attempt m (Tensor α) :=
  left.zip right ops.add

def subAll (left right : Structure α) : Attempt m (Tensor α) :=
  left.zip right ops.sub

def negAll (arg : Structure α) : Attempt m (Tensor α) :=
  arg.map ops.neg

/-- Stores `other` before the target is looked at. -/
def addTarget {n : Type → Type} [Monad n] [MonadStateOf (Tensor α) n] [MonadLiftT (Except Error) n]
    [MonadLiftT m n] (other : Structure α) : n Unit := do
  let source ← (liftM other.flat : m (Tensor α))
  Pointwise.zipTarget source ops.add

def addAssign (other : Structure α) : InPlace (Tensor α) m Unit :=
  ops.addTarget other

end GroupOps

namespace RingOps
variable (ops : RingOps m α)

def ones (shape : List Nat) : Except Fault (Tensor α) :=
  Tensor.filled shape ops.one

def multiplyAll (left right : Structure α) : Attempt m (Tensor α) :=
  left.zip right ops.multiply

end RingOps

namespace FieldOps
variable (ops : FieldOps m α)

def divideAll (left right : Structure α) : Attempt m (Tensor α) :=
  left.zip right ops.divide

def scaleAll (arg : Structure α) (value : Float) : Attempt m (Tensor α) :=
  arg.map fun x => ops.scale x value

def scaleAssign (value : Float) : InPlace (Tensor α) m Unit :=
  Pointwise.mapAssign fun x => ops.scale x value

end FieldOps

namespace ElementAlgebra
variable (algebra : ElementAlgebra m α)

/-- An unknown name is refused before the operands are looked at. -/
def binaryAll [MonadStateOf Log m] (name : String) (left right : Structure α) :
    Attempt m (Tensor α) :=
  match algebra.binaryFunction name with
  | .error unknown => throw (.lookup unknown)
  | .ok f => do
    emit (.structureOperation algebra.name name left.shape)
    left.zip right f

def unaryAll (name : String) (arg : Structure α) : Attempt m (Tensor α) :=
  match algebra.unaryFunction name with
  | .error unknown => throw (.lookup unknown)
  | .ok f => arg.map f

end ElementAlgebra
end RowMajor

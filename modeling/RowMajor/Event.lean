import RowMajor.Error

/-! What the library reports while it works. Events are data; their level and
text are read off them. -/
namespace RowMajor

inductive Level where
  | debug
  | trace
deriving DecidableEq

inductive Event where
  | structureOperation (algebra operation : String) (shape : List Nat)
  | rowExchange (row other : Nat)
  | collapsed (component iterations : Nat)
  | converged (component iterations : Nat)
  | dispatch (matrices : Nat)
deriving DecidableEq

def Event.level : Event → Level
  | .structureOperation .. | .dispatch _ => .debug
  | .rowExchange .. | .collapsed .. | .converged .. => .trace

def Event.text : Event → String
  | .structureOperation algebra operation shape =>
    s!"{algebra} structure op '{operation}' on {shapeText shape}"
  | .rowExchange row other => s!"lu: pivot column {row}, swap rows {row} and {other}"
  | .collapsed component iterations =>
    s!"svd_1d: component {component} collapsed after {iterations} iterations"
  | .converged component iterations =>
    s!"svd_1d: component {component} converged after {iterations} iterations"
  | .dispatch matrices => s!"batch: dispatching {matrices} matrices"

/-- Events in the order in which they happened. -/
abbrev Log := Array Event

/-- A computation that may end in a fault. Its log survives the fault. -/
abbrev Run := ExceptT Fault (StateM Log)

def emit {m : Type → Type} [MonadStateOf Log m] (event : Event) : m Unit :=
  modifyThe Log (·.push event)

/-- An operation that may refuse. -/
abbrev Attempt (m : Type → Type) := ExceptT Error m

/-- An operation on a target in place. The target is kept as it stands when the
operation refuses, with whatever was written before. -/
abbrev InPlace (σ : Type) (m : Type → Type) := ExceptT Error (StateT σ m)

/-- Runs an operation in place on a target of its own. -/
def InPlace.onOwn {σ β : Type} {m : Type → Type} [Monad m] (operation : InPlace σ m β)
    (target : σ) : Attempt m (β × σ) := do
  let (result, after) ← (operation.run.run target : m (Except Error β × σ))
  match result with
  | .ok value => return (value, after)
  | .error refusal => throw refusal

end RowMajor

/-! What can go wrong. A fault is a broken precondition and ends the whole
computation; an error is a refusal that leaves the caller in charge. The
wording of both is kept here and nowhere else. -/
namespace RowMajor

inductive Arithmetic where
  | add
  | multiply
  | negate
deriving DecidableEq

def Arithmetic.verb : Arithmetic → String
  | .add => "add"
  | .multiply => "multiply"
  | .negate => "negate"

inductive Fault where
  | overflow (operation : Arithmetic)
  | indexCount (given rank : Nat)
  | indexRange (index size : Nat)
  | outputLength
  | outsideStore
  | noRoom
deriving DecidableEq

/-- The faults without a text are told apart by no caller. -/
def Fault.message : Fault → Option String
  | .overflow operation => some s!"attempt to {operation.verb} with overflow"
  | .indexCount given rank =>
    some (s!"assertion `left == right` failed: wrong number of indices\n" ++
      s!"  left: {given}\n right: {rank}")
  | .indexRange index size => some s!"index {index} out of bounds for dim {size}"
  | .outputLength => none
  | .outsideStore => none
  | .noRoom => none

/-- A name that an algebra does not know. -/
inductive LookupError where
  | unsupportedOperation (operation algebra : String)
  | unboundSymbol (symbol algebra : String)
deriving DecidableEq

def LookupError.message : LookupError → String
  | .unsupportedOperation operation algebra =>
    s!"operation '{operation}' is not defined in {algebra}"
  | .unboundSymbol symbol algebra => s!"symbol '{symbol}' is not supported in {algebra}"

end RowMajor

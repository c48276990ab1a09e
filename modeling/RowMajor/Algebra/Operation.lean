/-! The operations that have a name, and their names. -/
namespace RowMajor

inductive BinaryOp where
  | plus
  | minus
  | times
  | div
deriving DecidableEq

namespace BinaryOp

def all : List BinaryOp :=
  [plus, minus, times, div]

def symbol : BinaryOp → String
  | plus => "+"
  | minus => "-"
  | times => "*"
  | div => "/"

def ofSymbol? (symbol : String) : Option BinaryOp :=
  all.find? (·.symbol == symbol)

theorem ofSymbol?_symbol (op : BinaryOp) : ofSymbol? op.symbol = some op := by
  cases op <;> decide

end BinaryOp

inductive UnaryOp where
  | plus
  | minus
  | sqrt
  | exp
  | ln
deriving DecidableEq

namespace UnaryOp

def all : List UnaryOp :=
  [plus, minus, sqrt, exp, ln]

def symbol : UnaryOp → String
  | plus => "+"
  | minus => "-"
  | sqrt => "sqrt"
  | exp => "exp"
  | ln => "ln"

def ofSymbol? (symbol : String) : Option UnaryOp :=
  all.find? (·.symbol == symbol)

theorem ofSymbol?_symbol (op : UnaryOp) : ofSymbol? op.symbol = some op := by
  cases op <;> decide

end UnaryOp
end RowMajor

import RowMajor.Structure

/-! Simple rules that give a structure its elements, for building examples. -/
namespace RowMajor

inductive Rule (α : Type) where
  /-- A constant plus the indices weighted by coefficients; missing ones do not count. -/
  | linear (coefficients : List Int) (offset : Int)
  /-- One where all indices are equal, zero elsewhere. -/
  | unit
  /-- One more with every call. -/
  | counting (first : Int)
  | constant (value : α)
  /-- The elements themselves, in row-major order. -/
  | table (values : List α)

namespace Rule
variable {α : Type}

def tablePlace : List Nat → List Nat → Nat
  | stride :: strides, i :: index => i * stride + tablePlace strides index
  | _, _ => 0

/-- The element at a multi-index of a layout, after a number of earlier calls. -/
def value (ofInt : Int → α) (layout : Layout) (rule : Rule α) (calls : Nat) (index : List Nat) :
    α :=
  match rule with
  | linear coefficients offset =>
    ofInt ((List.zipWith (fun (i : Nat) (c : Int) => i * c) index coefficients).foldl
      (· + ·) offset)
  | unit => ofInt (if index.all (· == index.headD 0) then 1 else 0)
  | counting first => ofInt (first + calls)
  | constant value => value
  | table values => values.getD (tablePlace layout.strides index) (ofInt 0)

/-- The element at a multi-index, counting the calls. -/
def next {m : Type → Type} [Monad m] (ofInt : Int → α) (layout : Layout) (rule : Rule α)
    (index : List Nat) : StateT Nat m α := do
  let calls ← modifyGet fun calls => (calls, calls + 1)
  return rule.value ofInt layout calls index

end Rule
end RowMajor

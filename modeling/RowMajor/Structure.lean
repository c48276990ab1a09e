import RowMajor.Tensor.Traverse
import RowMajor.Scalar

/-! Structures that can be read element by element: stored in a tensor, or
computed from the multi-index each time they are asked. -/
namespace RowMajor

inductive Structure (α : Type) where
  | stored (tensor : Tensor α)
  | lazy (layout : Layout) (value : List Nat → α)

namespace Structure
variable {α : Type}

def layout : Structure α → Layout
  | .stored tensor => tensor.layout
  | .lazy layout _ => layout

def shape (s : Structure α) : List Nat :=
  s.layout.shape

def rank (s : Structure α) : Nat :=
  s.layout.rank

def tensor? : Structure α → Option (Tensor α)
  | .stored tensor => some tensor
  | .lazy .. => none

/-- A computed structure answers at any list of indices, in range or not. -/
def read : Structure α → List Nat → Except Fault α
  | .stored tensor, index => tensor.read index
  | .lazy _ value, index => .ok (value index)

/-- A tensor of the same elements. Nothing is copied if there is one already. -/
def flat : Structure α → Except Fault (Tensor α)
  | .stored tensor => .ok tensor
  | .lazy layout value => Tensor.generate layout fun index => .ok (value index)

/-- At most `count` entries from the cursor on, and the cursor after them. -/
def entriesFrom (s : Structure α) (count : Nat) (cursor : Cursor) :
    Except Fault (List (List Nat × α) × Cursor) := do
  let (indices, after) ← cursor.collect count
  let entries ← indices.mapM fun index => return (index, ← s.read index)
  return (entries, after)

def entries (s : Structure α) : Except Fault (List (List Nat × α)) := do
  return (← s.entriesFrom s.layout.size (.atStart s.layout)).1

/-- Whether the next `count` entries agree. Nothing is read after the first
that does not. -/
def agreeFrom (s other : Structure α) (test : α → α → Bool) : Nat → Cursor → Except Fault Bool
  | 0, _ => .ok true
  | count + 1, cursor =>
    match cursor.next? with
    | none => .ok true
    | some (index, after) => do
      let x ← s.read index
      let y ← other.read index
      if test x y then agreeFrom s other test count after else return false

/-- Compares elements of equal shapes. Two tensors are compared cell by cell,
otherwise the second structure is asked at the indices of the first. -/
def allEntries (s other : Structure α) (test : α → α → Bool) : Except Fault Bool :=
  if s.shape = other.shape then
    match s, other with
    | .stored a, .stored b => .ok ((a.cells.toList.zip b.cells.toList).all fun (x, y) => test x y)
    | _, _ => s.agreeFrom other test s.layout.size (.atStart s.layout)
  else .ok false

def contentEquals [BEq α] (s other : Structure α) : Except Fault Bool :=
  s.allEntries other (· == ·)

/-- Every difference is below the tolerance, and not equal to it. -/
def contentClose [Scalar α] (s other : Structure α) (tolerance : α) : Except Fault Bool :=
  s.allEntries other fun x y => Scalar.less (Scalar.abs (x - y)) tolerance

def defaultTolerance : Float := 1e-11

end Structure
end RowMajor

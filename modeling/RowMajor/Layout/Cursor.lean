import RowMajor.Layout

/-! Walking through the multi-indices of a layout, in row-major order. -/
namespace RowMajor

namespace Layout

/-- The multi-index of every position, by position. -/
def indices (layout : Layout) : Vector (List Nat) layout.size :=
  Vector.ofFn fun position => layout.index position

end Layout

/-- A place in the walk. -/
structure Cursor where
  layout : Layout
  position : Nat

namespace Cursor

def atStart (layout : Layout) : Cursor :=
  ⟨layout, 0⟩

/-- How many multi-indices are still to come. -/
def remaining (cursor : Cursor) : Nat :=
  cursor.layout.size - cursor.position

def next? (cursor : Cursor) : Option (List Nat × Cursor) :=
  if cursor.position < cursor.layout.size then
    some (cursor.layout.index cursor.position, { cursor with position := cursor.position + 1 })
  else none

/-- At most `count` further multi-indices, and the place after them. -/
def take : Nat → Cursor → List (List Nat) × Cursor
  | 0, cursor => ([], cursor)
  | count + 1, cursor =>
    match cursor.next? with
    | none => ([], cursor)
    | some (index, after) =>
      let (indices, rest) := take count after
      (index :: indices, rest)

/-- The same as a list in memory, which must have room for it. -/
def collect (count : Nat) (cursor : Cursor) : Except Fault (List (List Nat) × Cursor) := do
  Word.requireRoom (min count cursor.remaining)
  return cursor.take count

end Cursor
end RowMajor

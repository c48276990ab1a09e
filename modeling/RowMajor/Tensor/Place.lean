import RowMajor.Tensor.Sequence

/-! Places inside a tensor that can be written to by themselves. -/
namespace RowMajor

/-- A view to write through, and how a changed view goes back into the tensor. -/
structure Place (α : Type) where
  view : Tensor α
  putBack : Tensor α → Tensor α → Tensor α

namespace Place
variable {α : Type}

def whole (t : Tensor α) : Place α :=
  ⟨t, fun _ view => view⟩

/-- The chunk number `k` of the last `keep` dimensions. -/
def chunk? (t : Tensor α) (keep k : Nat) : Attempt (Except Fault) (Option (Place α)) := do
  return (← t.chunks keep)[k]?.map fun chunk => ⟨chunk, fun t chunk => t.withChunk k chunk⟩

/-- A view of its own shape over the elements of the tensor. -/
def within (t : Tensor α) (shape : List Nat) (start : Nat) :
    Attempt (Except Fault) (Place α) := do
  let layout ← ExceptT.lift (Layout.ofShape shape)
  let view ← Tensor.inStore t.cells.toArray layout start
  return ⟨view, fun t view => t.splice 0 view.store⟩

end Place
end RowMajor

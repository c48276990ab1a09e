import RowMajor.Layout
import RowMajor.Event

/-! Splitting a layout into its leading dimensions and the last few of them. -/
namespace RowMajor

/-- The layout of one item, and how many items lie one after the other. -/
structure Split (layout : Layout) where
  inner : Layout
  count : Nat
  covers : count * inner.size ≤ layout.size

namespace Split

theorem item_fits {layout : Layout} (split : Split layout) (k : Fin split.count) :
    k * split.inner.size + split.inner.size ≤ layout.size :=
  calc k * split.inner.size + split.inner.size
      = (k + 1) * split.inner.size := (Nat.succ_mul ..).symm
    _ ≤ split.count * split.inner.size := Nat.mul_le_mul_right _ k.isLt
    _ ≤ layout.size := split.covers

end Split

/-- Items without elements are not counted: there are none of them. -/
def Layout.split (layout : Layout) (keep : Nat) : Attempt (Except Fault) (Split layout) := do
  if layout.rank < keep then
    throw (.rankMismatch layout.rank keep)
  let inner ← Layout.ofShape (layout.shape.drop (layout.rank - keep))
  if inner.size = 0 then
    return ⟨inner, 0, by rw [Nat.zero_mul]; exact Nat.zero_le _⟩
  else
    match h : elementCount layout.shape with
    | .error fault => ExceptT.lift (.error fault)
    | .ok total =>
      return ⟨inner, total / inner.size, by
        rw [Except.ok.inj (h.symm.trans layout.size_eq)]
        exact Nat.div_mul_le_self ..⟩

end RowMajor

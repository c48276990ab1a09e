import RowMajor.Tensor
import RowMajor.Layout.Split

/-! The trailing vectors and matrices of a tensor, one after the other. Items are
for reading and share the store of the tensor; chunks are for writing, have a
store of their own, and are put back when they are done. -/
namespace RowMajor
variable {α : Type}

def Split.item {t : Tensor α} (split : Split t.layout) (k : Fin split.count) : Tensor α where
  layout := split.inner
  store := t.store
  start := t.start + k * split.inner.size
  fits := by
    have := split.item_fits k
    have := t.fits
    omega

/-- Cuts `count` pieces of one length off the front. -/
def cut (length : Nat) : (count : Nat) → (cells : List α) → count * length ≤ cells.length →
    List (Vector α length)
  | 0, _, _ => []
  | count + 1, cells, h =>
    have h' : count * length + length ≤ cells.length := by rwa [Nat.succ_mul] at h
    ⟨(cells.take length).toArray, by rw [List.size_toArray, List.length_take]; omega⟩
      :: cut length count (cells.drop length) (by rw [List.length_drop]; omega)

namespace Tensor

/-- The items made of the last `keep` dimensions. -/
def items (t : Tensor α) (keep : Nat) : Attempt (Except Fault) (List (Tensor α)) := do
  let split ← t.layout.split keep
  return (List.finRange split.count).map split.item

def chunks (t : Tensor α) (keep : Nat) : Attempt (Except Fault) (List (Tensor α)) := do
  let split ← t.layout.split keep
  return (cut split.inner.size split.count t.cells.toList
    (by rw [Vector.length_toList]; exact split.covers)).map (compact split.inner)

/-- Puts the chunk number `k` back. -/
def withChunk (t : Tensor α) (k : Nat) (chunk : Tensor α) : Tensor α :=
  t.splice (k * chunk.size) chunk.cells.toArray

/-- Puts all chunks back. -/
def withChunks (t : Tensor α) (chunks : List (Tensor α)) : Tensor α :=
  t.splice 0 (chunks.flatMap fun chunk => chunk.cells.toList).toArray

end Tensor
end RowMajor

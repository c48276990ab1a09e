import RowMajor.Layout
import RowMajor.Event

/-! Dense structures. The elements lie in row-major order in one stretch of a
store, which may be longer: a tensor that shares the store of another, or leaves
room around itself, differs only in where it starts. -/
namespace RowMajor

structure Tensor (α : Type) where
  layout : Layout
  store : Array α
  start : Nat
  fits : start + layout.size ≤ store.size

namespace Tensor
variable {α : Type}

def shape (t : Tensor α) : List Nat :=
  t.layout.shape

def rank (t : Tensor α) : Nat :=
  t.layout.rank

def size (t : Tensor α) : Nat :=
  t.layout.size

/-- The elements in row-major order, without what the store holds around them. -/
def cells (t : Tensor α) : Vector α t.layout.size :=
  (Vector.mk (t.store.extract t.start (t.start + t.layout.size)) rfl).cast (by
    have := t.fits
    rw [Array.size_extract]
    omega)

theorem place_lt (t : Tensor α) {i : Nat} (h : i < t.layout.size) :
    t.start + i < t.store.size := by
  have := t.fits
  omega

theorem getElem_cells (t : Tensor α) {i : Nat} (h : i < t.layout.size)
    (_ : t.start + i < t.store.size) : t.cells[i] = t.store[t.start + i] := by
  simp [cells]

/-- The tensor that owns a store of exactly its elements. -/
def compact (layout : Layout) (cells : Vector α layout.size) : Tensor α where
  layout := layout
  store := cells.toArray
  start := 0
  fits := by simp

theorem cells_compact (layout : Layout) (cells : Vector α layout.size) :
    (compact layout cells).cells = cells := by
  apply Vector.ext
  intro i h
  rw [getElem_cells _ h (place_lt _ h)]
  simp only [compact, Nat.zero_add]
  rfl

/-- Checks that a stretch of the store is long enough. A sum that leaves the range
of sizes asks for more than any store holds. -/
def requireStretch (length start size : Nat) : Except Error (PLift (start + size ≤ length)) :=
  if start + size < Word.bound then
    if h : start + size ≤ length then .ok ⟨h⟩
    else .error (.bufferLength (start + size) length)
  else .error (.bufferLength Word.top length)

/-- A tensor over a given store, starting anywhere in it. -/
def inStore (store : Array α) (layout : Layout) (start : Nat) : Except Error (Tensor α) := do
  let ⟨fits⟩ ← requireStretch store.size start layout.size
  return ⟨layout, store, start, fits⟩

/-- A tensor of exactly the given elements. -/
def ofArray (layout : Layout) (cells : Array α) : Except Error (Tensor α) :=
  if h : cells.size = layout.size then .ok (compact layout ⟨cells, h⟩)
  else .error (.bufferLength layout.size cells.size)

def filledLike (layout : Layout) (value : α) : Tensor α :=
  compact layout (Vector.replicate layout.size value)

def filled (shape : List Nat) (value : α) : Except Fault (Tensor α) := do
  return filledLike (← Layout.forStore shape) value

/-- The same elements in a store of their own. -/
def copy (t : Tensor α) : Tensor α :=
  compact t.layout t.cells

/-- What is left of the store when the owner gives up what lies around the elements. -/
def intoArray (t : Tensor α) : Array α :=
  if t.start = 0 ∧ t.store.size = t.layout.size then t.store
  else (t.store.take (t.start + t.layout.size)).drop t.start

/-- The place of an element in the store. -/
def place (t : Tensor α) (index : List Nat) : Except Fault Nat := do
  Word.add t.start (← t.layout.offset index)

def read (t : Tensor α) (index : List Nat) : Except Fault α := do
  let p ← t.place index
  match t.store[p]? with
  | some x => .ok x
  | none => .error .outsideStore

def write (t : Tensor α) (index : List Nat) (value : α) : Except Fault (Tensor α) := do
  let p ← t.place index
  if h : p < t.store.size then
    return { t with
      store := t.store.set p value
      fits := by rw [Array.size_set]; exact t.fits }
  else .error .outsideStore

/-- Overwrites elements from position `first` on. What does not fit into the tensor
is dropped, and nothing around the tensor changes. -/
def splice (t : Tensor α) (first : Nat) (values : Array α) : Tensor α :=
  { t with
    store := t.store.mapIdx fun p old =>
      if t.start + first ≤ p ∧ p < t.start + t.layout.size then
        values.getD (p - (t.start + first)) old
      else old
    fits := by rw [Array.size_mapIdx]; exact t.fits }

def overwrite (t : Tensor α) (cells : Vector α t.layout.size) : Tensor α :=
  t.splice 0 cells.toArray

theorem layout_splice (t : Tensor α) (first : Nat) (values : Array α) :
    (t.splice first values).layout = t.layout := rfl

theorem getElem_cells_splice (t : Tensor α) (first : Nat) (values : Array α) {i : Nat}
    (h : i < t.layout.size) :
    (t.splice first values).cells[i] =
      if first ≤ i then values.getD (i - first) t.cells[i] else t.cells[i] := by
  have := t.fits
  refine (getElem_cells (t.splice first values) h (place_lt (t.splice first values) h)).trans ?_
  rw [getElem_cells t h (place_lt t h)]
  simp only [splice, Array.getElem_mapIdx]
  by_cases low : first ≤ i
  · rw [if_pos (by omega), if_pos low, Nat.add_sub_add_left]
  · rw [if_neg (by omega), if_neg low]

theorem cells_overwrite (t : Tensor α) (cells : Vector α t.layout.size) :
    (t.overwrite cells).cells = cells := by
  apply Vector.ext
  intro i h
  have hi : i < t.layout.size := h
  simp only [overwrite]
  refine (getElem_cells_splice t 0 cells.toArray hi).trans ?_
  rw [if_pos (Nat.zero_le i)]
  simp only [Nat.sub_zero, Array.getD, Vector.size_toArray, hi, dif_pos]
  rfl

def fill (t : Tensor α) (value : α) : Tensor α :=
  t.overwrite (Vector.replicate t.layout.size value)

/-- Takes over the elements of a tensor of the same shape. -/
def copyFrom {m : Type → Type} [Monad m] (source : Tensor α) : InPlace (Tensor α) m Unit := do
  let target ← get
  if target.layout = source.layout then set (target.splice 0 source.cells.toArray)
  else throw (.shapeMismatch target.shape source.shape)

/-- Equal shapes and equal elements, by the equality of the elements. -/
def beq [BEq α] (a b : Tensor α) : Bool :=
  if h : a.layout = b.layout then a.cells == h ▸ b.cells else false

end Tensor
end RowMajor

import RowMajor.Word

/-! The index model of a dense structure: its shape, the row-major strides of
that shape, and the number of elements. The last index varies fastest. A
dimension of size zero counts as one in the strides, so that every stride is
positive and offsets can always be decoded, and as zero in the size. -/
namespace RowMajor

/-- The stride of a dimension is the product of the sizes after it, found from
the last dimension to the first. -/
def rowStrides : List Nat → Except Fault (List Nat)
  | [] => .ok []
  | [_] => .ok [1]
  | _ :: size :: rest => do
    let inner ← rowStrides (size :: rest)
    let stride ← Word.mul (inner.headD 1) (max size 1)
    return stride :: inner

def countFrom (count : Nat) : List Nat → Except Fault Nat
  | [] => .ok count
  | size :: rest => do countFrom (← Word.mul count size) rest

/-- The product of the sizes from the first to the last. A product that leaves
the range is a fault even if a later size is zero. -/
def elementCount (shape : List Nat) : Except Fault Nat :=
  countFrom 1 shape

/-- The shape determines the rest: both fields are what the two products give. -/
structure Layout where
  shape : List Nat
  strides : List Nat
  size : Nat
  strides_eq : rowStrides shape = .ok strides
  size_eq : elementCount shape = .ok size

namespace Layout

def ofShape (shape : List Nat) : Except Fault Layout :=
  match hs : rowStrides shape with
  | .error fault => .error fault
  | .ok strides =>
    match hz : elementCount shape with
    | .error fault => .error fault
    | .ok size => .ok ⟨shape, strides, size, hs, hz⟩

/-- The layout of a store that is to be made. -/
def forStore (shape : List Nat) : Except Fault Layout := do
  let layout ← ofShape shape
  Word.requireRoom layout.size
  return layout

theorem shape_of_ofShape {shape : List Nat} {layout : Layout} (h : ofShape shape = .ok layout) :
    layout.shape = shape := by
  unfold ofShape at h
  split at h
  · cases h
  · split at h
    · cases h
    · cases h
      rfl

theorem ext_shape : {a b : Layout} → a.shape = b.shape → a = b
  | ⟨shape, strides, size, hs, hz⟩, ⟨_, strides', size', hs', hz'⟩, h => by
    simp only at h
    subst h
    have hst : strides = strides' := Except.ok.inj (hs.symm.trans hs')
    have hsz : size = size' := Except.ok.inj (hz.symm.trans hz')
    subst hst hsz
    rfl

instance : DecidableEq Layout := fun a b =>
  if h : a.shape = b.shape then .isTrue (ext_shape h)
  else .isFalse fun same => h (same ▸ rfl)

def rank (layout : Layout) : Nat :=
  layout.shape.length

def offsetFrom (offset : Nat) : List Nat → List Nat → List Nat → Except Fault Nat
  | size :: shape, stride :: strides, i :: index =>
    if i < size then do
      offsetFrom (← Word.add offset (← Word.mul i stride)) shape strides index
    else .error (.indexRange i size)
  | _, _, _ => .ok offset

/-- The position of a multi-index in row-major order. The number of indices is
looked at first, then each index from the first dimension on. -/
def offset (layout : Layout) (index : List Nat) : Except Fault Nat :=
  if index.length = layout.rank then offsetFrom 0 layout.shape layout.strides index
  else .error (.indexCount index.length layout.rank)

def decode : List Nat → Nat → List Nat
  | [], _ => []
  | stride :: strides, position => position / stride :: decode strides (position % stride)

/-- The multi-index at a position. A position past the end is decoded like any
other and gives a first index that is too large. -/
def index (layout : Layout) (position : Nat) : List Nat :=
  decode layout.strides position

/-- The same written over `length` entries, which must be one for each dimension. -/
def indexInto (layout : Layout) (position length : Nat) : Except Fault (List Nat) :=
  if length = layout.strides.length then .ok (layout.index position)
  else .error .outputLength

/-- The product of the sizes as a natural number, in range or not. -/
def product : List Nat → Nat
  | [] => 1
  | size :: rest => size * product rest

theorem countFrom_cons_eq_ok {count size n : Nat} {rest : List Nat} :
    countFrom count (size :: rest) = .ok n ↔
      count * size < Word.bound ∧ countFrom (count * size) rest = .ok n := by
  simp only [countFrom, bind, Except.bind]
  constructor
  · intro h
    split at h
    · cases h
    · rename_i next value
      obtain ⟨small, rfl⟩ := Word.mul_eq_ok.mp value
      exact ⟨small, h⟩
  · rintro ⟨small, h⟩
    rw [Word.mul_eq_ok.mpr ⟨small, rfl⟩]
    exact h

theorem countFrom_eq_ok {count n : Nat} : {shape : List Nat} →
    countFrom count shape = .ok n → n = count * product shape
  | [], h => by
    simp only [countFrom, Except.ok.injEq] at h
    simp [h, product]
  | size :: rest, h => by
    rw [countFrom_eq_ok (countFrom_cons_eq_ok.mp h).2, product, Nat.mul_assoc]

theorem size_eq_product (layout : Layout) : layout.size = product layout.shape := by
  have h := countFrom_eq_ok layout.size_eq
  rwa [Nat.one_mul] at h

theorem size_of_shape_single {layout : Layout} {n : Nat} (h : layout.shape = [n]) :
    layout.size = n := by
  rw [layout.size_eq_product, h]
  simp [product]

theorem size_of_shape_pair {layout : Layout} {n m : Nat} (h : layout.shape = [n, m]) :
    layout.size = n * m := by
  rw [layout.size_eq_product, h]
  simp [product]

end Layout
end RowMajor

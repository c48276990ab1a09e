import RowMajor.Tensor
import RowMajor.Layout.Cursor

/-! Building tensors from functions, and passing over their elements in row-major
order. The functions may have effects, which happen in that order. -/
namespace RowMajor.Tensor
variable {α β γ : Type} {m : Type → Type} [Monad m]

/-- Every element with its multi-index. -/
def entries (t : Tensor α) : Vector (List Nat × α) t.layout.size :=
  t.layout.indices.zip t.cells

def generateLike (layout : Layout) (f : List Nat → m α) : m (Tensor α) := do
  return compact layout (← layout.indices.mapM f)

/-- The same where memory may have no room for the tensor. Then `f` is not called. -/
def generate [MonadExceptOf Fault m] (layout : Layout) (f : List Nat → m α) : m (Tensor α) :=
  match Word.requireRoom layout.size with
  | .error fault => throw fault
  | .ok _ => generateLike layout f

def mapM (t : Tensor α) (f : α → m β) : m (Tensor β) := do
  return compact t.layout (← t.cells.mapM f)

def mapIndexedM (t : Tensor α) (f : List Nat → α → m β) : m (Tensor β) := do
  return compact t.layout (← t.entries.mapM fun entry => f entry.1 entry.2)

def zipWithM (a : Tensor α) (b : Tensor β) (f : α → β → m γ) : Attempt m (Tensor γ) :=
  if h : a.layout = b.layout then do
    let pairs := a.cells.zip (b.cells.cast (congrArg Layout.size h.symm))
    return compact a.layout (← (pairs.mapM fun pair => f pair.1 pair.2 : m _))
  else throw (.shapeMismatch a.shape b.shape)

/-- Replaces every element, in place. -/
def updateM (t : Tensor α) (f : List Nat → α → m α) : m (Tensor α) := do
  return t.overwrite (← t.entries.mapM fun entry => f entry.1 entry.2)

end RowMajor.Tensor

import RowMajor.Tensor.Traverse

/-! One pass over the elements of one or two tensors. Tensors lie in one stretch,
so no pass looks at multi-indices unless its function asks for them. -/
namespace RowMajor.Pointwise
variable {α β γ : Type} {m : Type → Type} [Monad m]

def requireSameShape (left right : List Nat) : Except Error Unit :=
  if left = right then .ok () else .error (.shapeMismatch left right)

def map (source : Tensor α) (f : α → m β) : Attempt m (Tensor β) := do
  let cells ← (source.cells.toArray.mapM f : m (Array β))
  Tensor.ofArray source.layout cells

def mapIndexed (source : Tensor α) (f : List Nat → α → m β) : Attempt m (Tensor β) := do
  let cells ← (source.entries.toArray.mapM fun entry => f entry.1 entry.2 : m (Array β))
  Tensor.ofArray source.layout cells

def zip (a : Tensor α) (b : Tensor β) (f : α → β → m γ) : Attempt m (Tensor γ) := do
  requireSameShape a.shape b.shape
  let pairs := a.cells.toArray.zip b.cells.toArray
  let cells ← (pairs.mapM fun pair => f pair.1 pair.2 : m (Array γ))
  Tensor.ofArray a.layout cells

/-- Writes the images of the elements of `source`. -/
def mapInto (source : Tensor α) (f : α → m β) : InPlace (Tensor β) m Unit := do
  let target ← get
  requireSameShape target.shape source.shape
  let cells ← (source.cells.toArray.mapM f : m (Array β))
  set (target.splice 0 cells)

def zipInto (a : Tensor α) (b : Tensor β) (f : α → β → m γ) : InPlace (Tensor γ) m Unit := do
  let target ← get
  requireSameShape target.shape a.shape
  requireSameShape a.shape b.shape
  let pairs := a.cells.toArray.zip b.cells.toArray
  let cells ← (pairs.mapM fun pair => f pair.1 pair.2 : m (Array γ))
  set (target.splice 0 cells)

/-- Combines every element of the target with the element of `source` beside it, in any monad
that holds a target. -/
def zipTarget {n : Type → Type} [Monad n] [MonadStateOf (Tensor α) n] [MonadLiftT (Except Error) n]
    [MonadLiftT m n] (source : Tensor β) (f : α → β → m α) : n Unit := do
  let target ← get
  requireSameShape target.shape source.shape
  let pairs := target.cells.toArray.zip source.cells.toArray
  let cells ← (pairs.mapM fun pair => f pair.1 pair.2 : m (Array α))
  set (target.splice 0 cells)

def zipAssign (source : Tensor β) (f : α → β → m α) : InPlace (Tensor α) m Unit :=
  zipTarget source f

def mapAssign (f : α → m α) : InPlace (Tensor α) m Unit := do
  let target ← get
  let cells ← (target.cells.toArray.mapM f : m (Array α))
  set (target.splice 0 cells)

end RowMajor.Pointwise

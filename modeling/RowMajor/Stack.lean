import RowMajor.Linear.Factor
import RowMajor.Linear.Singular
import RowMajor.Tensor.Sequence

/-! Decompositions of whole stacks. The last two dimensions of a tensor are the
matrix, the dimensions before them the stack. Every matrix is a task of its own;
the first task that refuses ends the operation. -/
namespace RowMajor.Stack
variable {α : Type} [Scalar α]

abbrev StackM := Attempt Run

/-- Items and chunks as part of a stack operation. -/
def within {β : Type} (attempt : Attempt (Except Fault) β) : StackM β :=
  ExceptT.mk (liftM attempt.run)

def create {β : Type} (made : Except Fault β) : StackM β :=
  ExceptT.lift (liftM made)

def dispatch {τ β : Type} (tasks : List τ) (task : τ → StackM β) : StackM (List β) := do
  emit (.dispatch tasks.length)
  tasks.mapM task

def stackDims (shape : List Nat) : List Nat :=
  shape.take (shape.length - 2)

/-- The combined factors of every matrix, and their pivots. -/
def factor (a : Tensor α) : StackM (Tensor α × List AnyPivots) := do
  discard (squareDim a.shape : Except Error Nat)
  let result := a.copy
  let tasks ← within (result.chunks 2)
  let done ← dispatch tasks Linear.factorInPlace.onOwn
  return (result.withChunks (done.map (·.2)), done.map (·.1))

structure PLU (α : Type) where
  permutation : Tensor α
  lower : Tensor α
  upper : Tensor α

/-- The permutation and the two triangular factors of every matrix. -/
def factorWithPivots (a : Tensor α) : StackM (PLU α) := do
  let (factors, pivots) ← factor a
  let p ← create (Tensor.filled a.shape (0 : α))
  let l ← create (Tensor.filled a.shape (0 : α))
  let u ← create (Tensor.filled a.shape (0 : α))
  let items ← within (factors.items 2)
  let ps ← within (p.chunks 2)
  let ls ← within (l.chunks 2)
  let us ← within (u.chunks 2)
  let tasks := (((items.zip pivots).zip ps).zip ls).zip us
  let done ← dispatch tasks fun ((((item, ⟨_, pivots⟩), p), l), u) => do
    let (_, p) ← (Linear.permutationInto pivots).onOwn p
    let (_, l, u) ← (Linear.splitInto item).onOwn (l, u)
    return (p, l, u)
  return ⟨p.withChunks (done.map (·.1)), l.withChunks (done.map (·.2.1)),
    u.withChunks (done.map (·.2.2))⟩

/-- One determinant for each matrix, in the shape of the stack; a single matrix
counts as a stack of one. Matrices of size zero have determinant one. -/
def determinant (a : Tensor α) : StackM (Tensor α) := do
  let n ← squareDim a.shape
  let stack := stackDims a.shape
  let shape := if stack.isEmpty then [1] else stack
  if n = 0 then create (Tensor.filled shape (1 : α))
  else
    let (factors, pivots) ← factor a
    let items ← within (factors.items 2)
    let values ← (items.zip pivots).mapM fun (item, ⟨_, pivots⟩) =>
      (Linear.determinant item pivots : Except Error α)
    let layout ← create (Layout.ofShape shape)
    Tensor.ofArray layout values.toArray

def inverse (a : Tensor α) : StackM (Tensor α) := do
  let (factors, pivots) ← factor a
  let result ← create (Tensor.filled a.shape (0 : α))
  let items ← within (factors.items 2)
  let targets ← within (result.chunks 2)
  let done ← dispatch ((items.zip pivots).zip targets) fun ((item, ⟨_, pivots⟩), target) =>
    (Linear.inverseInto item pivots).onOwn target
  return result.withChunks (done.map (·.2))

/-- Whether two entries that mirror each other differ by more than `epsilon`. -/
def isAsymmetric (epsilon : α) (a : Tensor α) : Bool :=
  match requireSquare a.shape with
  | .error _ => false
  | .ok ⟨n, h⟩ =>
    let matrix := a.matrix h
    (List.finRange n).any fun i => (List.finRange n).any fun j =>
      j < i && Scalar.less epsilon (Scalar.abs (matrix.entry i j - matrix.entry j i))

/-- All matrices are tested for symmetry before the first one is factored. -/
def cholesky (a : Tensor Float) (epsilon : Float) : StackM (Tensor Float) := do
  discard (squareDim a.shape : Except Error Nat)
  let items ← within (a.items 2)
  if items.any (isAsymmetric epsilon) then
    throw (.notSymmetric epsilon)
  let result ← create (Tensor.filled a.shape 0)
  let targets ← within (result.chunks 2)
  let done ← dispatch (items.zip targets) fun (item, target) =>
    (Linear.choleskyInto item).onOwn target
  return result.withChunks (done.map (·.2))

/-- The orthogonal and the upper factor of every matrix. -/
def orthogonal (a : Tensor α) : StackM (Tensor α × Tensor α) := do
  discard (squareDim a.shape : Except Error Nat)
  let q ← create (Tensor.filled a.shape (0 : α))
  let r ← create (Tensor.filled a.shape (0 : α))
  let items ← within (a.items 2)
  let qs ← within (q.chunks 2)
  let rs ← within (r.chunks 2)
  let done ← dispatch ((items.zip qs).zip rs) fun ((item, q), r) =>
    (Linear.orthogonalInto item).onOwn (q, r)
  return (q.withChunks (done.map (·.2.1)), r.withChunks (done.map (·.2.2)))

structure USV (α : Type) where
  u : Tensor α
  s : Tensor α
  v : Tensor α

/-- The shapes of the three factors of a stack of matrices. -/
def singularShapes (stack : List Nat) (rows cols : Nat) : List Nat × List Nat × List Nat :=
  let k := min rows cols
  (stack ++ [rows, k], stack ++ [k], stack ++ [cols, k])

/-- The singular factors of every matrix. -/
def singularWith {σ : Type} (source : Source σ α) (state : σ) (limits : PowerLimits α)
    (a : Tensor α) : StackM (USV α) := do
  let (rows, cols) ← matrixDims a.shape
  let (uShape, sShape, vShape) := singularShapes (stackDims a.shape) rows cols
  let u ← create (Tensor.filled uShape (0 : α))
  let s ← create (Tensor.filled sShape (0 : α))
  let v ← create (Tensor.filled vShape (0 : α))
  let items ← within (a.items 2)
  let us ← within (u.chunks 2)
  let ss ← within (s.chunks 1)
  let vs ← within (v.chunks 2)
  let done ← dispatch (((items.zip us).zip ss).zip vs) fun (((item, u), s), v) =>
    (Linear.singularInto source state limits item).onOwn (u, s, v)
  return ⟨u.withChunks (done.map (·.2.1)), s.withChunks (done.map (·.2.2.1)),
    v.withChunks (done.map (·.2.2.2))⟩

def singular (a : Tensor Float) (config : Linear.SingularConfig) : StackM (USV Float) :=
  singularWith Generator.normalSource (.ofSeed config.seed) config.limits a

end RowMajor.Stack

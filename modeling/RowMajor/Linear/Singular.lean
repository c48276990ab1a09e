import RowMajor.Matrix.Window
import RowMajor.Matrix.SingularValues
import RowMajor.Random.Normal
import RowMajor.Scalar.Elementary

/-! Singular values and vectors of tensors of rank two. -/
namespace RowMajor.Linear
variable {α : Type} [Scalar α] {m : Type → Type} [Monad m]

def haltEvent (component : Nat) : Halt → Nat → Event
  | .collapsed, iterations => .collapsed component iterations
  | .converged, iterations => .converged component iterations

variable {σ : Type}

/-- The leading singular vector on the short side of a matrix. The state of the
source goes on whether or not the iteration succeeds. -/
def leadingVector [MonadStateOf Log m] (source : Source σ α) (limits : PowerLimits α)
    (a : Tensor α) (component : Nat) : InPlace σ m (List α) := do
  let ⟨(rows, cols), h⟩ ← requireMatrix a.shape
  let report {n : Nat} (found : Option (PowerRun α n) × σ) : InPlace σ m (List α) := do
    set found.2
    match found.1 with
    | some run =>
      emit (haltEvent component run.halt run.iterations)
      return run.vector.toList
    | none => throw (.notConverged component limits.maxIterations)
  if cols < rows then report ((a.matrix h).columnGram.leading source limits (← get))
  else report ((a.matrix h).rowGram.leading source limits (← get))

/-- Writes the components of `a` over the targets, the first ones even if a later
one cannot be found. Memory must have room for a vector of either side. -/
def singularInto [MonadStateOf Log m] [MonadLiftT (Except Fault) m] (source : Source σ α)
    (state : σ) (limits : PowerLimits α) (a : Tensor α) :
    InPlace (Tensor α × Tensor α × Tensor α) m Unit := do
  let (u, s, v) ← get
  let ⟨(rows, cols), h⟩ ← requireMatrix a.shape
  let k := min rows cols
  let ⟨hu⟩ ← requireShape u.shape [rows, k]
  let ⟨hs⟩ ← requireShape s.shape [k]
  let ⟨hv⟩ ← requireShape v.shape [cols, k]
  (liftM (Word.requireRoom rows) : m Unit)
  (liftM (Word.requireRoom cols) : m Unit)
  let done := Deflation.run source limits state (a.matrix h)
    ⟨u.matrix hu, s.vector hs, v.matrix hv⟩
  done.halts.zipIdx.forM fun ((halt, iterations), component) =>
    emit (haltEvent component halt iterations)
  set (u.withMatrix hu done.factors.u, s.withVector hs done.factors.s,
    v.withMatrix hv done.factors.v)
  match done.failed with
  | none => return ()
  | some component => throw (.notConverged component limits.maxIterations)

/-- Limits for floats, with the seed that the start vectors are drawn from. -/
structure SingularConfig where
  epsilon : Float
  maxIterations : Nat
  seed : UInt64

def SingularConfig.standard : SingularConfig where
  epsilon := 1e-10
  maxIterations := 10000
  seed := 0

def SingularConfig.limits (config : SingularConfig) : PowerLimits Float :=
  ⟨config.epsilon, config.maxIterations⟩

/-- Every matrix starts from a fresh generator, so that equal limits give equal results. -/
def seededSingularInto [MonadStateOf Log m] [MonadLiftT (Except Fault) m]
    (config : SingularConfig) (a : Tensor Float) :
    InPlace (Tensor Float × Tensor Float × Tensor Float) m Unit :=
  singularInto Generator.normalSource (.ofSeed config.seed) config.limits a

end RowMajor.Linear

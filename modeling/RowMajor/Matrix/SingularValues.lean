import RowMajor.Matrix.Basic
import RowMajor.Random.Source

/-! Singular values by power iteration. The leading singular vector on the short
side is iterated on a Gram matrix, its partner is its image under the matrix, and
the component is taken off a working copy before the next one is sought. -/
namespace RowMajor
variable {α : Type} [Scalar α] {n m k : Nat}

/-- Why a power iteration stopped: its vector became zero or overflowed, or two
vectors in a row were nearly parallel. -/
inductive Halt where
  | collapsed
  | converged
deriving DecidableEq

structure PowerRun (α : Type) (n : Nat) where
  vector : Vector α n
  halt : Halt
  iterations : Nat

/-- Goes on for at most `budget` iterations, after `finished` earlier ones. On a
collapse the last good vector is kept. -/
def powerIterate (b : Mat α n n) (epsilon : α) :
    (budget finished : Nat) → Vector α n → Option (PowerRun α n)
  | 0, _, _ => none
  | budget + 1, finished, v =>
    let image := b.apply v
    let length := Scalar.norm image.toList
    if Scalar.isZero length || !Scalar.isFinite length then
      some ⟨v, .collapsed, finished + 1⟩
    else
      let next := image.map (· / length)
      let overlap := Scalar.abs (Scalar.dot next.toList v.toList)
      if Scalar.less (1 - epsilon) overlap then some ⟨next, .converged, finished + 1⟩
      else powerIterate b epsilon budget (finished + 1) next

def normalizeStart (v : Vector α n) : Vector α n :=
  let length := Scalar.norm v.toList
  if Scalar.less 0 length then v.map (· / length) else v

/-- The length of a vector and the vector at unit length. A vector without a usable
length has length zero and stays as it is. -/
def normalize (v : Vector α n) : α × Vector α n :=
  let length := Scalar.norm v.toList
  if Scalar.less 0 length && Scalar.isFinite length then (length, v.map (· / length)) else (0, v)

structure Triplet (α : Type) (n m : Nat) where
  sigma : α
  left : Vector α n
  right : Vector α m

/-- A component without weight has no directions either. -/
def Triplet.settle (t : Triplet α n m) : Triplet α n m :=
  if Scalar.isZero t.sigma then
    { t with left := Vector.replicate n 0, right := Vector.replicate m 0 }
  else t

namespace Mat

/-- The image of a vector under the transposed matrix. -/
def applyTransposed (a : Mat α n m) (x : Vector α n) : Vector α m :=
  Vector.ofFn fun j => Scalar.sum ((List.finRange n).map fun i => a.entry i j * x.get i)

def image (a : Mat α n m) (x : Vector α m) : Vector α n :=
  Vector.ofFn fun i => Scalar.sum ((List.finRange m).map fun j => a.entry i j * x.get j)

/-- The component that belongs to a leading right vector. -/
def tripletOfRight (a : Mat α n m) (right : Vector α m) : Triplet α n m :=
  let (sigma, left) := normalize (a.image right)
  Triplet.settle ⟨sigma, left, right⟩

def tripletOfLeft (a : Mat α n m) (left : Vector α n) : Triplet α n m :=
  let (sigma, right) := normalize (a.applyTransposed left)
  Triplet.settle ⟨sigma, left, right⟩

def deflate (a : Mat α n m) (t : Triplet α n m) : Mat α n m :=
  ofFn fun i j => a.entry i j - t.sigma * t.left.get i * t.right.get j

end Mat

/-- How close to parallel is close enough, and how many iterations may be spent on
each component. -/
structure PowerLimits (α : Type) where
  epsilon : α
  maxIterations : Nat

variable {σ : Type}

/-- Power iteration from a start vector that is drawn even if there is no budget. -/
def Mat.leading (b : Mat α n n) (source : Source σ α) (limits : PowerLimits α) (state : σ) :
    Option (PowerRun α n) × σ :=
  let (drawn, state) := source.vector n state
  (powerIterate b limits.epsilon limits.maxIterations 0 (normalizeStart drawn), state)

/-- The three factors, one column or entry for each component. -/
structure SingularFactors (α : Type) (n m k : Nat) where
  u : Mat α n k
  s : Vector α k
  v : Mat α m k

def SingularFactors.record (f : SingularFactors α n m k) (c : Fin k) (t : Triplet α n m) :
    SingularFactors α n m k where
  u := f.u.putColumn c t.left
  s := f.s.set c t.sigma c.isLt
  v := f.v.putColumn c t.right

/-- A decomposition under way. After a failed component nothing changes any more. -/
structure Deflation (σ α : Type) (n m k : Nat) where
  work : Mat α n m
  state : σ
  factors : SingularFactors α n m k
  halts : List (Halt × Nat)
  failed : Option (Fin k)

namespace Deflation

def accept (d : Deflation σ α n m k) (c : Fin k) (state : σ) (t : Triplet α n m)
    (halt : Halt) (iterations : Nat) : Deflation σ α n m k where
  work := d.work.deflate t
  state := state
  factors := d.factors.record c t
  halts := d.halts ++ [(halt, iterations)]
  failed := none

def step (source : Source σ α) (limits : PowerLimits α) (d : Deflation σ α n m k) (c : Fin k) :
    Deflation σ α n m k :=
  if d.failed.isSome then d
  else if m < n then
    match d.work.columnGram.leading source limits d.state with
    | (some run, state) =>
      d.accept c state (d.work.tripletOfRight run.vector) run.halt run.iterations
    | (none, state) => { d with state, failed := some c }
  else
    match d.work.rowGram.leading source limits d.state with
    | (some run, state) =>
      d.accept c state (d.work.tripletOfLeft run.vector) run.halt run.iterations
    | (none, state) => { d with state, failed := some c }

/-- Finds `k` components of `a`, over whatever the factors held before. -/
def run (source : Source σ α) (limits : PowerLimits α) (state : σ) (a : Mat α n m)
    (factors : SingularFactors α n m k) : Deflation σ α n m k :=
  Fin.foldl k (step source limits) ⟨a, state, factors, [], none⟩

end Deflation
end RowMajor

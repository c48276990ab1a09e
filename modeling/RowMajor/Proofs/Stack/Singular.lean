import Mathlib
import RowMajor.Proofs.Linear.Singular
import RowMajor.Proofs.Stack.Operations

/-! Singular values of stacks. Every matrix has a plan, its factors or a refusal, and the
operation on the stack is the plans of its matrices, one after the other. -/
namespace RowMajor
open Tensor (CanMake)
variable {α σ : Type} [Scalar α] {source : Source σ α} {limits : PowerLimits α} {state : σ}
  {n m : Nat}

namespace Stack
variable {stack : List Nat} {a : Tensor α} {matrices : List (Mat α n m)}

theorem pieceCount_congr {stack last last' : List Nat}
    (h : Layout.product last = 0 ↔ Layout.product last' = 0) :
    pieceCount stack last = pieceCount stack last' :=
  if_congr h rfl rfl

/-- The factors that one task has written. -/
def HoldsFactors (y : Unit × Tensor α × Tensor α × Tensor α)
    (f : SingularFactors α n m (min n m)) : Prop :=
  y.2.1.Holds f.u ∧ y.2.2.1.HoldsVector f.s ∧ y.2.2.2.Holds f.v

theorem singularInto_realizes {t u s v : Tensor α} {b : Mat α n m} (ht : t.Holds b)
    (hu : u.shape = [n, min n m]) (hs : s.shape = [min n m]) (hv : v.shape = [m, min n m])
    (rows : n < Word.room) (cols : m < Word.room) :
    Realizes HoldsFactors ((Linear.singularInto source state limits t).onOwn (u, s, v))
      (Linear.decomposition source limits state b) := by
  obtain ⟨u', s', v', settles, written, _⟩ :=
    Linear.singularInto_settles source limits state ht hu hs hv rows cols
  have gives := Gives.onOwn settles
  cases plan : Linear.decomposition source limits state b with
  | error refusal =>
      rw [plan] at gives
      exact gives
  | ok f =>
      rw [plan] at gives
      exact ⟨_, gives, written f plan⟩

theorem singular_realizes (h : a.IsStack stack matrices)
    (sides : matrices ≠ [] → n < Word.room ∧ m < Word.room)
    (leftRoom : CanMake (stack ++ [n, min n m])) (weightRoom : CanMake (stack ++ [min n m]))
    (rightRoom : CanMake (stack ++ [m, min n m])) :
    Realizes (fun (out : USV α) (fs : List (SingularFactors α n m (min n m))) =>
        (out.u.IsStack stack (fs.map (·.u)) ∧ out.s.IsVectorStack stack (fs.map (·.s)) ∧
          out.v.IsStack stack (fs.map (·.v))) ∧
        out.u.Addressable ∧ out.s.Addressable ∧ out.v.Addressable)
      (singularWith source state limits a)
      (matrices.mapM (Linear.decomposition source limits state)) := by
  have leftCount : matrices.length = pieceCount stack [n, min n m] :=
    h.length_eq.trans (pieceCount_congr (by simp [Layout.product]))
  have weightCount : matrices.length = pieceCount stack [min n m] :=
    h.length_eq.trans (pieceCount_congr (by simp [Layout.product]))
  have rightCount : matrices.length = pieceCount stack [m, min n m] :=
    h.length_eq.trans (pieceCount_congr (by simp [Layout.product]; omega))
  obtain ⟨u, madeU, shapeU, smallU, _⟩ := Tensor.exists_filled leftRoom (0 : α)
  obtain ⟨s, madeS, shapeS, smallS, _⟩ := Tensor.exists_filled weightRoom (0 : α)
  obtain ⟨v, madeV, shapeV, smallV, _⟩ := Tensor.exists_filled rightRoom (0 : α)
  obtain ⟨us, cutU, fitU⟩ := Tensor.exists_targets shapeU leftCount
  obtain ⟨ss, cutS, fitS⟩ := Tensor.exists_targets shapeS weightCount
  obtain ⟨vs, cutV, fitV⟩ := Tensor.exists_targets shapeV rightCount
  obtain ⟨items, _, read, _, holds, _⟩ := h.sequences
  have dims : matrixDims a.shape = .ok (n, m) := h.shape_eq ▸ matrixDims_eq stack n m
  have outer : stackDims a.shape = stack := h.shape_eq ▸ stackDims_eq stack n m
  refine .step (.lift dims) ?_
  simp only [outer, singularShapes]
  refine .step (.create madeU) (.step (.create madeS) (.step (.create madeV) ?_))
  refine .step (.within read) (.step (.within cutU) ?_)
  refine .step (.within cutS) (.step (.within cutV) ?_)
  have tasks := forall₂_and_of_ne_nil
    (forall₂_zip_along (forall₂_zip_along (forall₂_zip_along holds fitU) fitS) fitV) sides
  have ran : Realizes (List.Forall₂ HoldsFactors) (dispatch (((items.zip us).zip ss).zip vs)
      fun x => (Linear.singularInto source state limits x.1.1.1).onOwn (x.1.1.2, x.1.2, x.2))
      (matrices.mapM (Linear.decomposition source limits state)) := by
    refine .dispatch tasks ?_
    rintro ⟨⟨⟨item, u⟩, s⟩, v⟩ b ⟨⟨⟨⟨here, hu⟩, hs⟩, hv⟩, rows, cols⟩
    exact singularInto_realizes here hu hs hv rows cols
  cases plan : matrices.mapM (Linear.decomposition source limits state) with
  | error refusal =>
      rw [plan] at ran
      exact Gives.bind_error ran
  | ok fs =>
      rw [plan] at ran
      have count : fs.length = matrices.length := (mapM_eq_ok plan).length_eq.symm
      refine Ensures.bind ran fun done all => .pure ⟨⟨?_, ?_, ?_⟩, smallU, smallS, smallV⟩
      · exact Tensor.isStack_withChunks shapeU (count.trans leftCount) all
          fun _ _ fits => fits.1
      · exact Tensor.isVectorStack_withChunks shapeS (count.trans weightCount) all
          fun _ _ fits => fits.2.1
      · exact Tensor.isStack_withChunks shapeV (count.trans rightCount) all
          fun _ _ fits => fits.2.2

end Stack
end RowMajor

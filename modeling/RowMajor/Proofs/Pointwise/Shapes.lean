import Mathlib
import RowMajor.Algebra.Real
import RowMajor.Pointwise.Algebra
import RowMajor.Proofs.Linear.Shapes
import RowMajor.Proofs.Structure.Elements

/-! The shapes that operations on elements accept: equal ones. What such an operation may
fault with are the faults of the function that it applies. The same form then serves for all
operations in place, those on matrices included. -/
namespace RowMajor
open InPlace
variable {α β γ : Type}

namespace Pointwise

/-- The function faults like this at an element, with some log. -/
def FaultsAt (f : β → Run γ) (x : β) (fault : Fault) : Prop :=
  ∃ log later, (f x).run.run log = (.error fault, later)

/-- Composed work faults in its first part or in its rest. -/
theorem run_bind_faults {first : Run β} {rest : β → Run γ} {log later : Log} {fault : Fault}
    (h : (first >>= rest).run.run log = (.error fault, later)) :
    first.run.run log = (.error fault, later) ∨
      ∃ value middle, (rest value).run.run middle = (.error fault, later) := by
  rw [ExceptT.run_bind, StateT.run_bind] at h
  rcases here : first.run.run log with ⟨result, middle⟩
  rw [here] at h
  cases result with
  | error other =>
      cases h
      exact Or.inl rfl
  | ok value => exact Or.inr ⟨value, middle, h⟩

theorem faultsAt_of_list {f : β → Run γ} {cells : List β} {log later : Log} {fault : Fault}
    (h : (cells.mapM f).run.run log = (.error fault, later)) :
    ∃ x ∈ cells, FaultsAt f x fault := by
  induction cells generalizing log with
  | nil => cases h
  | cons x cells ih =>
      rw [List.mapM_cons] at h
      rcases run_bind_faults h with here | ⟨y, middle, h⟩
      · exact ⟨x, List.mem_cons_self, log, later, here⟩
      · rcases run_bind_faults h with behind | ⟨_, _, impossible⟩
        · obtain ⟨x', member, there⟩ := ih behind
          exact ⟨x', List.mem_cons_of_mem x member, there⟩
        · cases impossible

/-- A pass over elements faults at one of them. -/
theorem faultsAt_of_array {f : β → Run γ} {cells : Array β} {log later : Log} {fault : Fault}
    (h : (cells.mapM f).run.run log = (.error fault, later)) :
    ∃ x ∈ cells.toList, FaultsAt f x fault := by
  obtain ⟨cells⟩ := cells
  rw [List.mapM_toArray, map_eq_pure_bind] at h
  rcases run_bind_faults h with here | ⟨_, _, impossible⟩
  · exact faultsAt_of_list here
  · cases impossible

theorem requireSameShape_checksShapes (left right : List Nat) :
    ChecksShapes (requireSameShape left right) :=
  ChecksShapes.ite trivial

theorem requireSameShape_eq_ok {left right : List Nat} :
    requireSameShape left right = .ok () ↔ left = right := by
  unfold requireSameShape
  split
  · rename_i same
    exact iff_of_true rfl same
  · rename_i different
    simp [different]

theorem mapInto_refusesUnless (source : Tensor β) (f : β → Run γ) (target : Tensor γ) :
    RefusesUnless (mapInto source f) target (target.shape = source.shape)
      fun fault => ∃ x ∈ source.cells.toList, FaultsAt f x fault := by
  apply refusesUnless_of
  · intro misfit
    apply Refuses.get
    apply Refuses.check (requireSameShape_checksShapes _ _)
    intro _ same
    exact absurd (requireSameShape_eq_ok.mp same) misfit
  · intro same log
    apply GoesOn.get
    apply GoesOn.check (requireSameShape_eq_ok.mpr same)
    apply GoesOn.work faultsAt_of_array
    intro _ _ _
    exact .succeeds Ends.set

variable {δ : Type}

/-- A pass over pairs of elements. -/
theorem faultsAt_of_zip {f : β → γ → Run δ} {xs : Array β} {ys : Array γ} {log later : Log}
    {fault : Fault}
    (h : ((xs.zip ys).mapM fun pair => f pair.1 pair.2).run.run log = (.error fault, later)) :
    ∃ pair ∈ xs.toList.zip ys.toList, FaultsAt (f pair.1) pair.2 fault := by
  obtain ⟨pair, member, faults⟩ := faultsAt_of_array h
  rw [Array.toList_zip] at member
  exact ⟨pair, member, faults⟩

theorem zipInto_refusesUnless (a : Tensor β) (b : Tensor γ) (f : β → γ → Run δ)
    (target : Tensor δ) :
    RefusesUnless (zipInto a b f) target (target.shape = a.shape ∧ a.shape = b.shape)
      fun fault => ∃ pair ∈ a.cells.toList.zip b.cells.toList,
        FaultsAt (f pair.1) pair.2 fault := by
  apply refusesUnless_of
  · intro misfit
    apply Refuses.get
    apply Refuses.check (requireSameShape_checksShapes _ _)
    intro _ first
    apply Refuses.check (requireSameShape_checksShapes _ _)
    intro _ second
    exact absurd ⟨requireSameShape_eq_ok.mp first, requireSameShape_eq_ok.mp second⟩ misfit
  · rintro ⟨first, second⟩ log
    apply GoesOn.get
    apply GoesOn.check (requireSameShape_eq_ok.mpr first)
    apply GoesOn.check (requireSameShape_eq_ok.mpr second)
    apply GoesOn.work faultsAt_of_zip
    intro _ _ _
    exact .succeeds Ends.set

theorem zipAssign_refusesUnless (source : Tensor γ) (f : β → γ → Run β) (target : Tensor β) :
    RefusesUnless (zipAssign source f) target (target.shape = source.shape)
      fun fault => ∃ pair ∈ target.cells.toList.zip source.cells.toList,
        FaultsAt (f pair.1) pair.2 fault := by
  apply refusesUnless_of
  · intro misfit
    apply Refuses.get
    apply Refuses.check (requireSameShape_checksShapes _ _)
    intro _ same
    exact absurd (requireSameShape_eq_ok.mp same) misfit
  · intro same log
    apply GoesOn.get
    apply GoesOn.check (requireSameShape_eq_ok.mpr same)
    apply GoesOn.work faultsAt_of_zip
    intro _ _ _
    exact .succeeds Ends.set

end Pointwise

theorem Tensor.copyFrom_refusesUnless (source target : Tensor β) :
    RefusesUnless (copyFrom source) target
      (target.shape = source.shape) Linear.never := by
  apply refusesUnless_of
  · intro misfit
    apply Refuses.get
    have different : target.layout ≠ source.layout :=
      fun same => misfit (congrArg Layout.shape same)
    rw [if_neg different]
    exact ⟨.shapeMismatch target.shape source.shape, trivial, fun _ => Ends.throw⟩
  · intro same log
    apply GoesOn.get
    rw [if_pos (Layout.ext_shape same)]
    exact .succeeds Ends.set

/-- A structure that can be stored is added like any tensor. -/
theorem GroupOps.addAssign_refusesUnless (ops : GroupOps Run β) {other : Structure β}
    {source : Tensor β} (stored : other.flat = .ok source) (target : Tensor β) :
    RefusesUnless (ops.addAssign other) target (target.shape = other.shape)
      fun fault => ∃ pair ∈ target.cells.toList.zip source.cells.toList,
        Pointwise.FaultsAt (ops.add pair.1) pair.2 fault := by
  have same : ops.addAssign other = Pointwise.zipAssign source ops.add := by
    rw [addAssign, addTarget, stored]
    exact pure_bind source fun source => Pointwise.zipAssign source ops.add
  have layouts : source.layout = other.layout := (Structure.looksLike_flat stored).layout_eq
  rw [same, Structure.shape, ← layouts]
  exact Pointwise.zipAssign_refusesUnless source ops.add target

theorem GroupOps.addAssign_faults (ops : GroupOps Run β) {other : Structure β} {fault : Fault}
    (h : other.flat = .error fault) (target : Tensor β) (log : Log) :
    Faults (ops.addAssign other) target log fault log := by
  rw [addAssign, addTarget, h]
  rfl

/-- Where the target outlives the fault, it turns out to be as it was. -/
theorem GroupOps.addTarget_faultsUnwritten (ops : GroupOps Run β) {other : Structure β}
    {fault : Fault} (h : other.flat = .error fault) (target : Tensor β) (log : Log) :
    Kept.FaultsUnwritten (ops.addTarget other) target log fault log := by
  rw [addTarget, h]
  exact Kept.faultsUnwritten_work rfl

/-- Every operation in place refuses the shapes that it is not made for, and no others. -/
structure RefusesByShape (α : Type) [Scalar α] : Prop where
  factorInPlace : ∀ a : Tensor α,
    RefusesUnless Linear.factorInPlace a (∃ n, a.shape = [n, n]) Linear.never
  splitInto : ∀ lu l u : Tensor α, RefusesUnless (Linear.splitInto lu) (l, u)
    (∃ n, lu.shape = [n, n] ∧ l.shape = [n, n] ∧ u.shape = [n, n]) Linear.never
  permutationInto : ∀ {n : Nat} (pivots : Pivots n) (p : Tensor α),
    RefusesUnless (Linear.permutationInto pivots) p (p.shape = [n, n]) Linear.never
  inverseInto : ∀ {n : Nat} (lu : Tensor α) (pivots : Pivots n) (x : Tensor α),
    RefusesUnless (Linear.inverseInto lu pivots) x (lu.shape = [n, n] ∧ x.shape = [n, n])
      Linear.never
  choleskyInto : ∀ a l : Tensor α, RefusesUnless (Linear.choleskyInto a) l
    (∃ n, a.shape = [n, n] ∧ l.shape = [n, n]) Linear.never
  orthogonalInto : ∀ a q r : Tensor α, RefusesUnless (Linear.orthogonalInto a) (q, r)
    (∃ n, a.shape = [n, n] ∧ q.shape = [n, n] ∧ r.shape = [n, n]) Linear.never
  singularInto : ∀ {σ : Type} (source : Source σ α) (state : σ) (limits : PowerLimits α)
    (a u s v : Tensor α), RefusesUnless (Linear.singularInto source state limits a) (u, s, v)
      (∃ n m, a.shape = [n, m] ∧ u.shape = [n, min n m] ∧ s.shape = [min n m] ∧
        v.shape = [m, min n m])
      (· = .noRoom)
  multiplyInto : ∀ a b out : Tensor α, RefusesUnless (Linear.multiplyInto a b) out
    (∃ l n m, a.shape = [l, n] ∧ b.shape = [n, m] ∧ out.shape = [l, m]) Linear.never
  transposeInto : ∀ a out : Tensor α, RefusesUnless (Linear.transposeInto a) out
    (∃ n m, a.shape = [n, m] ∧ out.shape = [m, n]) Linear.never
  mapInto : ∀ {β γ : Type} (source : Tensor β) (f : β → Run γ) (target : Tensor γ),
    RefusesUnless (Pointwise.mapInto source f) target (target.shape = source.shape)
      fun fault => ∃ x ∈ source.cells.toList, Pointwise.FaultsAt f x fault
  zipInto : ∀ {β γ δ : Type} (a : Tensor β) (b : Tensor γ) (f : β → γ → Run δ) (target : Tensor δ),
    RefusesUnless (Pointwise.zipInto a b f) target (target.shape = a.shape ∧ a.shape = b.shape)
      fun fault => ∃ pair ∈ a.cells.toList.zip b.cells.toList,
        Pointwise.FaultsAt (f pair.1) pair.2 fault
  zipAssign : ∀ {β γ : Type} (source : Tensor γ) (f : β → γ → Run β) (target : Tensor β),
    RefusesUnless (Pointwise.zipAssign source f) target (target.shape = source.shape)
      fun fault => ∃ pair ∈ target.cells.toList.zip source.cells.toList,
        Pointwise.FaultsAt (f pair.1) pair.2 fault
  /-- What is added must be stored first, for which memory must have room. Where it has none,
  nothing has been written. -/
  addAssign : ∀ {β : Type} (ops : GroupOps Run β) (other : Structure β) (target : Tensor β),
    match other.flat with
    | .ok source => RefusesUnless (ops.addAssign other) target (target.shape = other.shape)
        fun fault => ∃ pair ∈ target.cells.toList.zip source.cells.toList,
          Pointwise.FaultsAt (ops.add pair.1) pair.2 fault
    | .error fault => fault = .noRoom ∧ ∀ log, Faults (ops.addAssign other) target log fault log ∧
        Kept.FaultsUnwritten (ops.addTarget other) target log fault log
  copyFrom : ∀ {β : Type} (source target : Tensor β),
    RefusesUnless (Tensor.copyFrom source) target (target.shape = source.shape) Linear.never

theorem operations_refuseByShape (α : Type) [Scalar α] : RefusesByShape α where
  factorInPlace := Linear.factorInPlace_refusesUnless
  splitInto := Linear.splitInto_refusesUnless
  permutationInto := Linear.permutationInto_refusesUnless
  inverseInto := Linear.inverseInto_refusesUnless
  choleskyInto := Linear.choleskyInto_refusesUnless
  orthogonalInto := Linear.orthogonalInto_refusesUnless
  singularInto := Linear.singularInto_refusesUnless
  multiplyInto := Linear.multiplyInto_refusesUnless
  transposeInto := Linear.transposeInto_refusesUnless
  mapInto := Pointwise.mapInto_refusesUnless
  zipInto := Pointwise.zipInto_refusesUnless
  zipAssign := Pointwise.zipAssign_refusesUnless
  addAssign ops other target := by
    split
    · rename_i source stored
      exact ops.addAssign_refusesUnless stored target
    · rename_i fault missing
      exact ⟨Structure.flat_faults missing, fun log =>
        ⟨ops.addAssign_faults missing target log, ops.addTarget_faultsUnwritten missing target log⟩⟩
  copyFrom := Tensor.copyFrom_refusesUnless

/-- A computed structure that no memory has room for. -/
def hugeOperand : Structure Float :=
  .lazy ⟨[2 ^ 62], [1], 2 ^ 62, by decide, by decide⟩ fun _ => 1

def oneElement : Tensor Float :=
  .compact Linear.numberLayout #v[1]

def floatGroup : GroupOps Run Float :=
  (RealField.fieldOps : FieldOps Run Float).toGroupOps

/-- What is added is stored before its shape is looked at. -/
theorem addAssign_hugeOperand : oneElement.shape ≠ hugeOperand.shape ∧ ∀ log,
    Faults (floatGroup.addAssign hugeOperand) oneElement log .noRoom log ∧
      ¬ ∃ (refusal : Error) (after : Tensor Float) (later : Log), refusal.IsAboutShapes ∧
        Ends (floatGroup.addAssign hugeOperand) oneElement log (.error refusal) after later := by
  refine ⟨by decide, fun log => ?_⟩
  have unstored : hugeOperand.flat = .error .noRoom :=
    Structure.flat_lazy_noRoom _ _ (by decide)
  have faults := floatGroup.addAssign_faults unstored oneElement log
  refine ⟨faults, ?_⟩
  rintro ⟨_, _, _, _, ends⟩
  exact ends.not_faults faults

end RowMajor

import Mathlib
import RowMajor.Linear.Product
import RowMajor.Proofs.Linear.Factor
import RowMajor.Proofs.Linear.Refusal
import RowMajor.Proofs.Linear.Singular

/-! The shapes that each operation on matrices accepts. Any other shapes are refused before
anything is written, and accepted ones never lead out of a matrix. -/
namespace RowMajor.Linear
open InPlace
variable {α : Type} [Scalar α] {n l m : Nat}

/-- Accepted shapes make nothing fault. -/
def never (_ : Fault) : Prop :=
  False

theorem matrixDims_checksShapes (shape : List Nat) : ChecksShapes (matrixDims shape) := by
  intro refusal h
  unfold matrixDims at h
  split at h
  · cases h
  · cases h
    trivial

theorem requireFactored_checksShapes (shape : List Nat) (n : Nat) :
    ChecksShapes (requireFactored shape n) :=
  ChecksShapes.bind (requireSquare_checksShapes shape) fun _ => ChecksShapes.ite trivial

theorem requireFactors_checksShapes (a b : List Nat) : ChecksShapes (requireFactors a b) :=
  ChecksShapes.bind (matrixDims_checksShapes a) fun _ =>
    ChecksShapes.bind (matrixDims_checksShapes b) fun _ => ChecksShapes.ite trivial

theorem requireFactors_eq {a b : List Nat} (ha : a = [l, n]) (hb : b = [n, m]) :
    requireFactors a b = .ok ⟨(l, n, m), ha, hb⟩ := by
  subst ha hb
  simp [requireFactors, matrixDims, bind, Except.bind, pure, Except.pure]

theorem factorInPlace_refusesUnless (t : Tensor α) :
    RefusesUnless factorInPlace t (∃ n, t.shape = [n, n])
      never := by
  apply refusesUnless_of
  · intro misfit
    apply Refuses.get
    apply Refuses.check (requireSquare_checksShapes _)
    rintro ⟨n, h⟩ _
    exact absurd ⟨n, h⟩ misfit
  · rintro ⟨n, h⟩ log
    exact .succeeds (factorInPlace_ends h log)

theorem splitInto_refusesUnless (lu l u : Tensor α) :
    RefusesUnless (splitInto lu) (l, u)
      (∃ n, lu.shape = [n, n] ∧ l.shape = [n, n] ∧ u.shape = [n, n]) never := by
  apply refusesUnless_of
  · intro misfit
    apply Refuses.get
    apply Refuses.check (requireSquare_checksShapes _)
    rintro ⟨n, h⟩ _
    apply Refuses.check (requireShape_checksShapes _ _)
    rintro ⟨hl⟩ _
    apply Refuses.check (requireShape_checksShapes _ _)
    rintro ⟨hu⟩ _
    exact absurd ⟨n, h, hl, hu⟩ misfit
  · rintro ⟨n, h, hl, hu⟩ log
    exact .succeeds (splitInto_ends h hl hu log)

theorem permutationInto_refusesUnless (pivots : Pivots n) (p : Tensor α) :
    RefusesUnless (permutationInto pivots) p (p.shape = [n, n]) never := by
  apply refusesUnless_of
  · intro misfit
    apply Refuses.get
    apply Refuses.check (requireShape_checksShapes _ _)
    rintro ⟨h⟩ _
    exact absurd h misfit
  · intro h log
    exact .succeeds (permutationInto_ends pivots h log)

theorem inverseInto_refusesUnless (lu : Tensor α) (pivots : Pivots n) (x : Tensor α) :
    RefusesUnless (inverseInto lu pivots) x
      (lu.shape = [n, n] ∧ x.shape = [n, n]) never := by
  apply refusesUnless_of
  · intro misfit
    apply Refuses.get
    apply Refuses.check (requireFactored_checksShapes _ _)
    rintro ⟨h⟩ _
    apply Refuses.check (requireShape_checksShapes _ _)
    rintro ⟨hx⟩ _
    exact absurd ⟨h, hx⟩ misfit
  · rintro ⟨h, hx⟩ log
    exact .succeeds (inverseInto_ends pivots h hx log)

theorem choleskyInto_refusesUnless (a x : Tensor α) :
    RefusesUnless (choleskyInto a) x
      (∃ n, a.shape = [n, n] ∧ x.shape = [n, n]) never := by
  apply refusesUnless_of
  · intro misfit
    apply Refuses.get
    apply Refuses.check (requireSquare_checksShapes _)
    rintro ⟨n, h⟩ _
    apply Refuses.check (requireShape_checksShapes _ _)
    rintro ⟨hx⟩ _
    exact absurd ⟨n, h, hx⟩ misfit
  · rintro ⟨n, h, hx⟩ log
    exact .succeeds (choleskyInto_ends h hx log)

theorem orthogonalInto_refusesUnless (a q r : Tensor α) :
    RefusesUnless (orthogonalInto a) (q, r)
      (∃ n, a.shape = [n, n] ∧ q.shape = [n, n] ∧ r.shape = [n, n]) never := by
  apply refusesUnless_of
  · intro misfit
    apply Refuses.get
    apply Refuses.check (requireSquare_checksShapes _)
    rintro ⟨n, h⟩ _
    apply Refuses.check (requireShape_checksShapes _ _)
    rintro ⟨hq⟩ _
    apply Refuses.check (requireShape_checksShapes _ _)
    rintro ⟨hr⟩ _
    exact absurd ⟨n, h, hq, hr⟩ misfit
  · rintro ⟨n, h, hq, hr⟩ log
    exact .succeeds (orthogonalInto_ends h hq hr log)

theorem multiplyInto_ends {a b out : Tensor α} (ha : a.shape = [l, n]) (hb : b.shape = [n, m])
    (ho : out.shape = [l, m]) (log : Log) :
    Ends (multiplyInto a b) out log (.ok ())
      (out.withMatrix ho ((a.matrix ha).product (b.matrix hb))) log := by
  rw [Mat.product, ← Mat.writeAll_eq (out.matrix ho)]
  exact Ends.bind Ends.get (Ends.check (requireFactors_eq ha hb)
    (Ends.check (requireShape_eq ho) Ends.set))

omit [Scalar α] in
theorem transposeInto_ends {a out : Tensor α} (h : a.shape = [n, m]) (ho : out.shape = [m, n])
    (log : Log) :
    Ends (transposeInto a) out log (.ok ()) (out.withMatrix ho (a.matrix h).transpose) log := by
  rw [Mat.transpose, ← Mat.writeAll_eq (out.matrix ho)]
  exact Ends.bind Ends.get (Ends.check (requireMatrix_eq h)
    (Ends.check (requireShape_eq ho) Ends.set))

theorem multiplyInto_refusesUnless (a b out : Tensor α) :
    RefusesUnless (multiplyInto a b) out
      (∃ l n m, a.shape = [l, n] ∧ b.shape = [n, m] ∧ out.shape = [l, m]) never := by
  apply refusesUnless_of
  · intro misfit
    apply Refuses.get
    apply Refuses.check (requireFactors_checksShapes _ _)
    rintro ⟨⟨l, n, m⟩, ha, hb⟩ _
    apply Refuses.check (requireShape_checksShapes _ _)
    rintro ⟨ho⟩ _
    exact absurd ⟨l, n, m, ha, hb, ho⟩ misfit
  · rintro ⟨l, n, m, ha, hb, ho⟩ log
    exact .succeeds (multiplyInto_ends ha hb ho log)

omit [Scalar α] in
theorem transposeInto_refusesUnless (a out : Tensor α) :
    RefusesUnless (transposeInto a) out
      (∃ n m, a.shape = [n, m] ∧ out.shape = [m, n]) never := by
  apply refusesUnless_of
  · intro misfit
    apply Refuses.get
    apply Refuses.check (requireMatrix_checksShapes _)
    rintro ⟨⟨n, m⟩, h⟩ _
    apply Refuses.check (requireShape_checksShapes _ _)
    rintro ⟨ho⟩ _
    exact absurd ⟨n, m, h, ho⟩ misfit
  · rintro ⟨n, m, h, ho⟩ log
    exact .succeeds (transposeInto_ends h ho log)

/-- A request for room asks for nothing else. -/
theorem requireRoom_faults {count : Nat} {log later : Log} {fault : Fault}
    (h : (liftM (Word.requireRoom count) : Run Unit).run.run log = (.error fault, later)) :
    fault = .noRoom := by
  unfold Word.requireRoom at h
  split at h
  · cases h
  · cases h
    rfl

variable {σ : Type}

/-- Only memory can keep a decomposition of matching shapes from ending. -/
theorem singularInto_refusesUnless (source : Source σ α) (state : σ) (limits : PowerLimits α)
    (a u s v : Tensor α) :
    RefusesUnless (singularInto source state limits a) (u, s, v)
      (∃ n m, a.shape = [n, m] ∧ u.shape = [n, min n m] ∧ s.shape = [min n m] ∧
        v.shape = [m, min n m])
      (· = .noRoom) := by
  apply refusesUnless_of
  · intro misfit
    apply Refuses.get
    apply Refuses.check (requireMatrix_checksShapes _)
    rintro ⟨⟨n, m⟩, h⟩ _
    apply Refuses.check (requireShape_checksShapes _ _)
    rintro ⟨hu⟩ _
    apply Refuses.check (requireShape_checksShapes _ _)
    rintro ⟨hs⟩ _
    apply Refuses.check (requireShape_checksShapes _ _)
    rintro ⟨hv⟩ _
    exact absurd ⟨n, m, h, hu, hs, hv⟩ misfit
  · rintro ⟨n, m, h, hu, hs, hv⟩ log
    apply GoesOn.get
    apply GoesOn.check (requireMatrix_eq h)
    apply GoesOn.check (requireShape_eq hu)
    apply GoesOn.check (requireShape_eq hs)
    apply GoesOn.check (requireShape_eq hv)
    apply GoesOn.work requireRoom_faults
    intro _ log _
    apply GoesOn.work requireRoom_faults
    intro _ log _
    dsimp only
    generalize Deflation.run source limits state _ _ = done
    have emits := Ends.emit_all done.halts.zipIdx
      (fun halt => haltEvent halt.2 halt.1.1 halt.1.2) (u, s, v) log
    apply GoesOn.bind emits
    apply GoesOn.bind Ends.set
    split
    · exact .succeeds Ends.pure
    · exact .refuses id Ends.throw

end RowMajor.Linear

import Mathlib
import RowMajor.Proofs.Linear.Budget
import RowMajor.Proofs.Linear.Shapes
import RowMajor.Proofs.Tensor.Place

/-! What the operations on matrices read and write. They read nothing but the elements of their
operands, wherever these lie, and write nothing but the elements of their targets, whatever
these held. -/
namespace RowMajor
open InPlace
variable {α σ β : Type} {n m : Nat}

namespace Tensor

/-- Equal shapes and equal elements, in stores that may differ. -/
structure SameContents (t s : Tensor α) : Prop where
  shape_eq : t.shape = s.shape
  cells_eq : t.cells.toList = s.cells.toList

/-- A copy has a store of its own, without anything around the elements. -/
theorem sameContents_copy (t : Tensor α) :
    t.SameContents t.copy ∧ t.copy.start = 0 ∧ t.copy.store.size = t.size :=
  ⟨⟨rfl, t.toList_cells_copy.symm⟩, rfl, t.cells.size_toArray⟩

theorem SameContents.matrix_eq {t s : Tensor α} (same : t.SameContents s) (h : t.shape = [n, m])
    (h' : s.shape = [n, m]) : t.matrix h = s.matrix h' := by
  apply congrArg Mat.mk
  apply Vector.toList_inj.mp
  rw [Vector.toList_cast, Vector.toList_cast, same.cells_eq]

/-- The contents are what a tensor holds. -/
theorem Holds.sameContents {t s : Tensor α} {a : Mat α n m} (h : t.Holds a) (h' : s.Holds a) :
    t.SameContents s := by
  obtain ⟨shape, rfl⟩ := h
  obtain ⟨shape', same⟩ := h'
  refine ⟨shape.trans shape'.symm, ?_⟩
  have lists := congrArg (fun a => a.cells.toList) same.symm
  simpa only [matrix, Vector.toList_cast] using lists

theorem sameContents_withMatrix (t s : Tensor α) (h : t.shape = [n, m]) (h' : s.shape = [n, m])
    (a : Mat α n m) : (t.withMatrix h a).SameContents (s.withMatrix h' a) :=
  (t.holds_withMatrix h a).sameContents (s.holds_withMatrix h' a)

theorem sameContents_withVector (t s : Tensor α) (h : t.shape = [n]) (h' : s.shape = [n])
    (x : Vector α n) : (t.withVector h x).SameContents (s.withVector h' x) where
  shape_eq := h.trans h'.symm
  cells_eq := by
    have cells := (t.vector_withVector h x).trans (s.vector_withVector h' x).symm
    have lists := congrArg Vector.toList cells
    simpa only [vector, Vector.toList_cast] using lists

/-- The view has changed in its place only, and so does any tensor that it is put back into. -/
structure StaysInPlace (view after : Tensor α) : Prop where
  around : view.AgreesAround after
  putBack : ∀ {p first t}, Place.Destination p first t → p.view = view →
    t.Receives first after (p.putBack t after)

theorem staysInPlace_splice (t : Tensor α) (first : Nat) (values : Array α) :
    t.StaysInPlace (t.splice first values) where
  around := t.agreesAround_splice first values
  putBack destination same := destination.receives (same ▸ t.agreesAround_splice first values)

end Tensor

/-- The tensors that an operation in place works on. -/
class Targets (σ : Type) (α : outParam Type) where
  tensors : σ → List (Tensor α)

instance : Targets (Tensor α) α :=
  ⟨fun t => [t]⟩

instance [Targets σ α] : Targets (Tensor α × σ) α :=
  ⟨fun x => x.1 :: Targets.tensors x.2⟩

section Targets
variable [Targets σ α]

/-- Two calls have left the same in their targets, and neither has changed anything else. -/
structure Rewritten (x after y last : σ) : Prop where
  stay : List.Forall₂ Tensor.StaysInPlace (Targets.tensors x) (Targets.tensors after)
  stay' : List.Forall₂ Tensor.StaysInPlace (Targets.tensors y) (Targets.tensors last)
  same : List.Forall₂ Tensor.SameContents (Targets.tensors after) (Targets.tensors last)

theorem Rewritten.pair {t after s last : Tensor α} {x after' y last' : σ}
    (first : Rewritten t after s last) (rest : Rewritten x after' y last') :
    Rewritten (t, x) (after, after') (s, y) (last, last') where
  stay := .cons (List.forall₂_cons.mp first.stay).1 rest.stay
  stay' := .cons (List.forall₂_cons.mp first.stay').1 rest.stay'
  same := .cons (List.forall₂_cons.mp first.same).1 rest.same

theorem rewritten_withMatrix (t s : Tensor α) (h : t.shape = [n, m]) (h' : s.shape = [n, m])
    (a : Mat α n m) : Rewritten t (t.withMatrix h a) s (s.withMatrix h' a) where
  stay := .cons (t.staysInPlace_splice 0 _) .nil
  stay' := .cons (s.staysInPlace_splice 0 _) .nil
  same := .cons (t.sameContents_withMatrix s h h' a) .nil

theorem rewritten_withVector (t s : Tensor α) (h : t.shape = [n]) (h' : s.shape = [n])
    (x : Vector α n) : Rewritten t (t.withVector h x) s (s.withVector h' x) where
  stay := .cons (t.staysInPlace_splice 0 _) .nil
  stay' := .cons (s.staysInPlace_splice 0 _) .nil
  same := .cons (t.sameContents_withVector s h h' x) .nil

/-- Where the one call succeeds, so does the other one, with the same result and log. -/
def WritesAlike (operation other : InPlace σ Run β) (x y : σ) : Prop :=
  ∀ log value after later, Ends operation x log (.ok value) after later →
    ∃ last, Ends other y log (.ok value) last later ∧ Rewritten x after y last

theorem writesAlike_of_ends {operation other : InPlace σ Run β} {x y after last : σ} {value : β}
    {events : Log → Log} (here : ∀ log, Ends operation x log (.ok value) after (events log))
    (there : ∀ log, Ends other y log (.ok value) last (events log))
    (rewritten : Rewritten x after y last) : WritesAlike operation other x y := by
  intro log _ _ _ ends
  obtain ⟨valueEq, rfl, rfl⟩ := (here log).unique.mp ends
  cases valueEq
  exact ⟨last, there log, rewritten⟩

/-- Only shapes that fit need to be looked at. -/
theorem writesAlike_of_fits {operation other : InPlace σ Run β} {x y : σ} {fits : Prop}
    {faulty : Fault → Prop} (checks : RefusesUnless operation x fits faulty)
    (h : fits → WritesAlike operation other x y) : WritesAlike operation other x y :=
  fun log value after later ends => h (checks.fits_of_ends ends id) log value after later ends

end Targets

namespace Linear
variable [Scalar α]

theorem factorInPlace_writesAlike {a b : Tensor α} (same : a.SameContents b) :
    WritesAlike factorInPlace factorInPlace a b := by
  apply writesAlike_of_fits (factorInPlace_refusesUnless a)
  rintro ⟨n, h⟩
  have h' : b.shape = [n, n] := same.shape_eq.symm.trans h
  have there := factorInPlace_ends h'
  rw [← same.matrix_eq h h'] at there
  exact writesAlike_of_ends (factorInPlace_ends h) there (rewritten_withMatrix a b h h' _)

theorem splitInto_writesAlike {lu lu' l l' u u' : Tensor α} (same : lu.SameContents lu')
    (left : l.shape = l'.shape) (right : u.shape = u'.shape) :
    WritesAlike (splitInto lu) (splitInto lu') (l, u) (l', u') := by
  apply writesAlike_of_fits (splitInto_refusesUnless lu l u)
  rintro ⟨n, h, hl, hu⟩
  have h' : lu'.shape = [n, n] := same.shape_eq.symm.trans h
  have hl' : l'.shape = [n, n] := left.symm.trans hl
  have hu' : u'.shape = [n, n] := right.symm.trans hu
  have there := splitInto_ends h' hl' hu'
  rw [← same.matrix_eq h h'] at there
  exact writesAlike_of_ends (splitInto_ends h hl hu) there
    ((rewritten_withMatrix l l' hl hl' _).pair (rewritten_withMatrix u u' hu hu' _))

theorem permutationInto_writesAlike (pivots : Pivots n) {p p' : Tensor α}
    (shape : p.shape = p'.shape) :
    WritesAlike (permutationInto pivots) (permutationInto pivots) p p' := by
  apply writesAlike_of_fits (permutationInto_refusesUnless pivots p)
  intro h
  have h' : p'.shape = [n, n] := shape.symm.trans h
  exact writesAlike_of_ends (permutationInto_ends pivots h) (permutationInto_ends pivots h')
    (rewritten_withMatrix p p' h h' _)

theorem inverseInto_writesAlike (pivots : Pivots n) {lu lu' x x' : Tensor α}
    (same : lu.SameContents lu') (shape : x.shape = x'.shape) :
    WritesAlike (inverseInto lu pivots) (inverseInto lu' pivots) x x' := by
  apply writesAlike_of_fits (inverseInto_refusesUnless lu pivots x)
  rintro ⟨h, hx⟩
  have h' : lu'.shape = [n, n] := same.shape_eq.symm.trans h
  have hx' : x'.shape = [n, n] := shape.symm.trans hx
  have there := inverseInto_ends pivots h' hx'
  rw [← same.matrix_eq h h'] at there
  exact writesAlike_of_ends (inverseInto_ends pivots h hx) there
    (rewritten_withMatrix x x' hx hx' _)

theorem choleskyInto_writesAlike {a a' x x' : Tensor α} (same : a.SameContents a')
    (shape : x.shape = x'.shape) : WritesAlike (choleskyInto a) (choleskyInto a') x x' := by
  apply writesAlike_of_fits (choleskyInto_refusesUnless a x)
  rintro ⟨n, h, hx⟩
  have h' : a'.shape = [n, n] := same.shape_eq.symm.trans h
  have hx' : x'.shape = [n, n] := shape.symm.trans hx
  have there := choleskyInto_ends h' hx'
  rw [← same.matrix_eq h h'] at there
  exact writesAlike_of_ends (choleskyInto_ends h hx) there (rewritten_withMatrix x x' hx hx' _)

theorem orthogonalInto_writesAlike {a a' q q' r r' : Tensor α} (same : a.SameContents a')
    (left : q.shape = q'.shape) (right : r.shape = r'.shape) :
    WritesAlike (orthogonalInto a) (orthogonalInto a') (q, r) (q', r') := by
  apply writesAlike_of_fits (orthogonalInto_refusesUnless a q r)
  rintro ⟨n, h, hq, hr⟩
  have h' : a'.shape = [n, n] := same.shape_eq.symm.trans h
  have hq' : q'.shape = [n, n] := left.symm.trans hq
  have hr' : r'.shape = [n, n] := right.symm.trans hr
  have there := orthogonalInto_ends h' hq' hr'
  rw [← same.matrix_eq h h'] at there
  exact writesAlike_of_ends (orthogonalInto_ends h hq hr) there
    ((rewritten_withMatrix q q' hq hq' _).pair (rewritten_withMatrix r r' hr hr' _))

theorem multiplyInto_writesAlike {a a' b b' out out' : Tensor α} (left : a.SameContents a')
    (right : b.SameContents b') (shape : out.shape = out'.shape) :
    WritesAlike (multiplyInto a b) (multiplyInto a' b') out out' := by
  apply writesAlike_of_fits (multiplyInto_refusesUnless a b out)
  rintro ⟨l, n, m, ha, hb, ho⟩
  have ha' : a'.shape = [l, n] := left.shape_eq.symm.trans ha
  have hb' : b'.shape = [n, m] := right.shape_eq.symm.trans hb
  have ho' : out'.shape = [l, m] := shape.symm.trans ho
  have there := multiplyInto_ends ha' hb' ho'
  rw [← left.matrix_eq ha ha', ← right.matrix_eq hb hb'] at there
  exact writesAlike_of_ends (multiplyInto_ends ha hb ho) there
    (rewritten_withMatrix out out' ho ho' _)

omit [Scalar α] in
theorem transposeInto_writesAlike {a a' out out' : Tensor α} (same : a.SameContents a')
    (shape : out.shape = out'.shape) :
    WritesAlike (transposeInto a) (transposeInto a') out out' := by
  apply writesAlike_of_fits (transposeInto_refusesUnless a out)
  rintro ⟨n, m, h, ho⟩
  have h' : a'.shape = [n, m] := same.shape_eq.symm.trans h
  have ho' : out'.shape = [m, n] := shape.symm.trans ho
  have there := transposeInto_ends h' ho'
  rw [← same.matrix_eq h h'] at there
  exact writesAlike_of_ends (transposeInto_ends h ho) there (rewritten_withMatrix out out' ho ho' _)

/-- No component is left to what the targets held, or the call would have failed. -/
theorem singularInto_writesAlike (source : Source σ α) (state : σ) (limits : PowerLimits α)
    {a a' u u' s s' v v' : Tensor α} (same : a.SameContents a') (left : u.shape = u'.shape)
    (values : s.shape = s'.shape) (right : v.shape = v'.shape) :
    WritesAlike (singularInto source state limits a) (singularInto source state limits a')
      (u, s, v) (u', s', v') := by
  apply writesAlike_of_fits (singularInto_refusesUnless source state limits a u s v)
  rintro ⟨n, m, h, hu, hs, hv⟩ log value after later ends
  have h' : a'.shape = [n, m] := same.shape_eq.symm.trans h
  have hu' : u'.shape = [n, min n m] := left.symm.trans hu
  have hs' : s'.shape = [min n m] := values.symm.trans hs
  have hv' : v'.shape = [m, min n m] := right.symm.trans hv
  obtain ⟨d, here⟩ : ∃ d, Deflation.run source limits state (a.matrix h)
    ⟨u.matrix hu, s.vector hs, v.matrix hv⟩ = d := ⟨_, rfl⟩
  obtain ⟨e, there⟩ : ∃ e, Deflation.run source limits state (a.matrix h)
    ⟨u'.matrix hu', s'.vector hs', v'.matrix hv'⟩ = e := ⟨_, rfl⟩
  have alike : Deflation.Alike (min n m) d e := here ▸ there ▸ Deflation.alike_run ..
  obtain ⟨rows, cols, result, rfl, rfl⟩ := (singularInto_ends_iff h hu hs hv here).mp ends
  have done := decompositionResult_eq_ok.mp result.symm
  have events : haltEvents d = haltEvents e := by
    rw [haltEvents, haltEvents, alike.halts_eq]
  rw [same.matrix_eq h h'] at there
  refine ⟨_, (singularInto_ends_iff h' hu' hs' hv' there).mpr
    ⟨rows, cols, ?_, rfl, congrArg (log ++ ·) events⟩, ?_⟩
  · exact (decompositionResult_eq_ok.mpr (alike.failed_eq ▸ done)).symm
  · rw [alike.factors_eq done]
    exact (rewritten_withMatrix u u' hu hu' _).pair
      ((rewritten_withVector s s' hs hs' _).pair (rewritten_withMatrix v v' hv hv' _))

/-- Each kernel does the same on any operands and targets of the same contents and shapes, such
as copies in stores of their own. What a pure target held is not among its contents. -/
structure KernelsWriteAlike (α : Type) [Scalar α] : Prop where
  copy : ∀ t : Tensor α,
    t.SameContents t.copy ∧ t.copy.start = 0 ∧ t.copy.store.size = t.size
  factorInPlace : ∀ {a a' : Tensor α}, a.SameContents a' →
    WritesAlike factorInPlace factorInPlace a a'
  splitInto : ∀ {lu lu' l l' u u' : Tensor α}, lu.SameContents lu' →
    l.shape = l'.shape → u.shape = u'.shape →
    WritesAlike (splitInto lu) (splitInto lu') (l, u) (l', u')
  permutationInto : ∀ {n : Nat} (pivots : Pivots n) {p p' : Tensor α}, p.shape = p'.shape →
    WritesAlike (permutationInto pivots) (permutationInto pivots) p p'
  inverseInto : ∀ {n : Nat} (pivots : Pivots n) {lu lu' x x' : Tensor α}, lu.SameContents lu' →
    x.shape = x'.shape → WritesAlike (inverseInto lu pivots) (inverseInto lu' pivots) x x'
  choleskyInto : ∀ {a a' l l' : Tensor α}, a.SameContents a' → l.shape = l'.shape →
    WritesAlike (choleskyInto a) (choleskyInto a') l l'
  orthogonalInto : ∀ {a a' q q' r r' : Tensor α}, a.SameContents a' →
    q.shape = q'.shape → r.shape = r'.shape →
    WritesAlike (orthogonalInto a) (orthogonalInto a') (q, r) (q', r')
  singularInto : ∀ {σ : Type} (source : Source σ α) (state : σ) (limits : PowerLimits α)
    {a a' u u' s s' v v' : Tensor α}, a.SameContents a' →
    u.shape = u'.shape → s.shape = s'.shape → v.shape = v'.shape →
    WritesAlike (singularInto source state limits a) (singularInto source state limits a')
      (u, s, v) (u', s', v')
  multiplyInto : ∀ {a a' b b' out out' : Tensor α}, a.SameContents a' → b.SameContents b' →
    out.shape = out'.shape → WritesAlike (multiplyInto a b) (multiplyInto a' b') out out'
  transposeInto : ∀ {a a' out out' : Tensor α}, a.SameContents a' → out.shape = out'.shape →
    WritesAlike (transposeInto a) (transposeInto a') out out'

theorem kernels_writeAlike (α : Type) [Scalar α] : KernelsWriteAlike α where
  copy := Tensor.sameContents_copy
  factorInPlace := factorInPlace_writesAlike
  splitInto := splitInto_writesAlike
  permutationInto := permutationInto_writesAlike
  inverseInto := inverseInto_writesAlike
  choleskyInto := choleskyInto_writesAlike
  orthogonalInto := orthogonalInto_writesAlike
  singularInto := singularInto_writesAlike
  multiplyInto := multiplyInto_writesAlike
  transposeInto := transposeInto_writesAlike

end Linear
end RowMajor

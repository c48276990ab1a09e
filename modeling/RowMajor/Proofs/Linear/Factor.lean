import Mathlib
import RowMajor.Proofs.Elimination.Solve
import RowMajor.Proofs.Linear.Outcome
import RowMajor.Proofs.Matrix.Overwrite
import RowMajor.Proofs.Matrix.Window
import RowMajor.Proofs.Orthogonal.Overwrite

/-! Triangular factors and inverses of tensors. Each operation ends with what its matrix
counterpart computes, and for exact scalars that is a factorization and an inverse. -/
namespace RowMajor

namespace Linear
open InPlace (Ends Returns)
variable {α : Type} {n : Nat}

theorem requireFactored_eq {shape : List Nat} (h : shape = [n, n]) :
    requireFactored shape n = .ok ⟨h⟩ := by
  simp only [requireFactored, requireSquare_eq h, bind, Except.bind, dite_true, pure, Except.pure]

section Ends
variable [Scalar α]

/-- What a factorization reports: its exchanges, in order. -/
def exchangeEvents (a : Mat α n n) : Log :=
  ((Elimination.run a).exchanges.map fun exchange =>
    Event.rowExchange exchange.1 exchange.2).toArray

theorem factorInPlace_ends {t : Tensor α} (h : t.shape = [n, n]) (log : Log) :
    Ends factorInPlace t log (.ok ⟨n, (Elimination.run (t.matrix h)).pivots⟩)
      (t.withMatrix h (Elimination.run (t.matrix h)).matrix) (log ++ exchangeEvents (t.matrix h)) :=
  Ends.bind Ends.get (Ends.check (requireSquare_eq h)
    (Ends.bind (Ends.emit_all _ _ _ _) (Ends.bind Ends.set Ends.pure)))

theorem splitInto_ends {lu l u : Tensor α} (h : lu.shape = [n, n]) (hl : l.shape = [n, n])
    (hu : u.shape = [n, n]) (log : Log) :
    Ends (splitInto lu) (l, u) log (.ok ())
      (l.withMatrix hl (lu.matrix h).lower, u.withMatrix hu (lu.matrix h).upper) log := by
  rw [Mat.lower, Mat.upper, ← Mat.writeAll_eq (l.matrix hl) (lu.matrix h).lowerEntry,
    ← Mat.writeAll_eq (u.matrix hu) (lu.matrix h).upperEntry]
  exact Ends.bind Ends.get (Ends.check (requireSquare_eq h)
    (Ends.check (requireShape_eq hl) (Ends.check (requireShape_eq hu) Ends.set)))

theorem permutationInto_ends (pivots : Pivots n) {p : Tensor α} (h : p.shape = [n, n]) (log : Log) :
    Ends (permutationInto pivots) p log (.ok ()) (p.withMatrix h (.permutation pivots)) log :=
  Ends.bind Ends.get (Ends.check (requireShape_eq h) Ends.set)

theorem inverseInto_ends {lu x : Tensor α} (pivots : Pivots n) (h : lu.shape = [n, n])
    (hx : x.shape = [n, n]) (log : Log) :
    Ends (inverseInto lu pivots) x log (.ok ())
      (x.withMatrix hx ((lu.matrix h).inverse pivots)) log :=
  Ends.bind Ends.get (Ends.check (requireFactored_eq h) (Ends.check (requireShape_eq hx) Ends.set))

theorem choleskyInto_ends {t x : Tensor α} (h : t.shape = [n, n]) (hx : x.shape = [n, n])
    (log : Log) :
    Ends (choleskyInto t) x log (.ok ()) (x.withMatrix hx (t.matrix h).cholesky) log :=
  Ends.bind Ends.get (Ends.check (requireSquare_eq h) (Ends.check (requireShape_eq hx) Ends.set))

theorem orthogonalInto_ends {t q r : Tensor α} (h : t.shape = [n, n]) (hq : q.shape = [n, n])
    (hr : r.shape = [n, n]) (log : Log) :
    Ends (orthogonalInto t) (q, r) log (.ok ())
      (q.withMatrix hq (Orthogonal.run (t.matrix h)).q,
        r.withMatrix hr (Orthogonal.run (t.matrix h)).r) log := by
  rw [← Orthogonal.runOver_eq (q.matrix hq)]
  exact Ends.bind Ends.get (Ends.check (requireSquare_eq h)
    (Ends.check (requireShape_eq hq) (Ends.check (requireShape_eq hr) Ends.set)))

theorem determinant_eq_ok {lu : Tensor α} {f : Mat α n n} (pivots : Pivots n) (h : lu.Holds f) :
    determinant lu pivots = .ok (f.determinant pivots) := by
  obtain ⟨shape, rfl⟩ := h
  simp only [determinant, requireFactored_eq shape, bind, Except.bind, pure, Except.pure]

theorem factorInPlace_returns {t : Tensor α} {a : Mat α n n} (ht : t.Holds a) :
    ∃ lu : Tensor α, Returns factorInPlace t ⟨n, (Elimination.run a).pivots⟩ lu ∧
      lu.Holds (Elimination.run a).matrix := by
  obtain ⟨h, rfl⟩ := ht
  exact ⟨_, fun log => ⟨_, factorInPlace_ends h log⟩, t.holds_withMatrix h _⟩

theorem splitInto_returns {lu l u : Tensor α} {a : Mat α n n} (ht : lu.Holds a)
    (hl : l.shape = [n, n]) (hu : u.shape = [n, n]) :
    ∃ l' u' : Tensor α, Returns (splitInto lu) (l, u) () (l', u') ∧
      l'.Holds a.lower ∧ u'.Holds a.upper := by
  obtain ⟨h, rfl⟩ := ht
  exact ⟨_, _, fun log => ⟨_, splitInto_ends h hl hu log⟩, l.holds_withMatrix hl _,
    u.holds_withMatrix hu _⟩

theorem permutationInto_returns (pivots : Pivots n) {p : Tensor α} (h : p.shape = [n, n]) :
    ∃ p' : Tensor α, Returns (permutationInto pivots) p () p' ∧
      p'.Holds (.permutation pivots : Mat α n n) :=
  ⟨_, fun log => ⟨_, permutationInto_ends pivots h log⟩, p.holds_withMatrix h _⟩

theorem inverseInto_returns {lu x : Tensor α} {a : Mat α n n} (pivots : Pivots n) (ht : lu.Holds a)
    (hx : x.shape = [n, n]) :
    ∃ x' : Tensor α, Returns (inverseInto lu pivots) x () x' ∧ x'.Holds (a.inverse pivots) := by
  obtain ⟨h, rfl⟩ := ht
  exact ⟨_, fun log => ⟨_, inverseInto_ends pivots h hx log⟩, x.holds_withMatrix hx _⟩

theorem choleskyInto_returns {t x : Tensor α} {a : Mat α n n}
    (ht : t.Holds a) (hx : x.shape = [n, n]) :
    ∃ x' : Tensor α, Returns (choleskyInto t) x () x' ∧ x'.Holds a.cholesky := by
  obtain ⟨h, rfl⟩ := ht
  exact ⟨_, fun log => ⟨_, choleskyInto_ends h hx log⟩, x.holds_withMatrix hx _⟩

theorem orthogonalInto_returns {t q r : Tensor α} {a : Mat α n n}
    (ht : t.Holds a) (hq : q.shape = [n, n]) (hr : r.shape = [n, n]) :
    ∃ q' r' : Tensor α, Returns (orthogonalInto t) (q, r) () (q', r') ∧
      q'.Holds (Orthogonal.run a).q ∧ r'.Holds (Orthogonal.run a).r := by
  obtain ⟨h, rfl⟩ := ht
  exact ⟨_, _, fun log => ⟨_, orthogonalInto_ends h hq hr log⟩, q.holds_withMatrix hq _,
    r.holds_withMatrix hr _⟩

end Ends

variable [ExactScalar α]

/-- The row order `p`, the unit lower factor `l` and the upper factor `u` of `a`. -/
structure IsFactorization (a p l u : Mat α n n) : Prop where
  product : p.toMatrix * a.toMatrix = l.toMatrix * u.toMatrix
  order : ∃ σ : Equiv.Perm (Fin n), ∀ i j, p.entry i j = if j = σ i then 1 else 0
  unit : ∀ i, l.entry i i = 1
  lower : ∀ i j, i < j → l.entry i j = 0
  upper : ∀ i j, j < i → u.entry i j = 0
  bounded : ∀ i j, |l.entry i j| ≤ 1
  nonzero : IsUnit a.toMatrix → ∀ i, u.entry i i ≠ 0

theorem isFactorization_run (a : Mat α n n) :
    IsFactorization a (.permutation (Elimination.run a).pivots) (Elimination.run a).matrix.lower
      (Elimination.run a).matrix.upper where
  product := by rw [Mat.permutation_mul, Elimination.lower_mul_upper_run]
  order := by
    obtain ⟨σ, h⟩ := Elimination.follows_run a
    exact ⟨σ, fun i j => by rw [Mat.entry_permutation, h.order_eq]⟩
  unit i := by rw [Mat.entry_lower, if_neg (lt_irrefl i), if_pos rfl]
  lower i j after := by rw [Mat.entry_lower, if_neg (lt_asymm after), if_neg (ne_of_gt after)]
  upper i j before := by rw [Mat.entry_upper, if_neg (not_le_of_gt before)]
  bounded := by
    rw [Elimination.matrix_run]
    exact Mat.abs_lower_le_one (Elimination.dominated_run a)
  nonzero invertible i := by
    rw [Mat.entry_upper, if_pos (le_refl i)]
    exact Elimination.entry_run_diagonal_ne_zero invertible i

/-- Factoring in place, splitting the result and writing the row order out gives a
factorization, and no invertible matrix makes the factoring divide by zero. -/
theorem factorInPlace_isFactorization {t l u p : Tensor α} {a : Mat α n n} (ht : t.Holds a)
    (hl : l.shape = [n, n]) (hu : u.shape = [n, n]) (hp : p.shape = [n, n]) :
    (IsUnit a.toMatrix → Elimination.DividesByNonzero a) ∧
      (Elimination.DividesByNonzero a →
        ∃ (pivots : Pivots n) (lu l' u' p' : Tensor α) (ml mu mp : Mat α n n),
          Returns factorInPlace t ⟨n, pivots⟩ lu ∧
          Returns (splitInto lu) (l, u) () (l', u') ∧ l'.Holds ml ∧ u'.Holds mu ∧
          Returns (permutationInto pivots) p () p' ∧ p'.Holds mp ∧
          IsFactorization a mp ml mu) := by
  refine ⟨Elimination.dividesByNonzero_of_isUnit, fun _ => ?_⟩
  obtain ⟨lu, factored, hlu⟩ := factorInPlace_returns ht
  obtain ⟨l', u', splitted, hl', hu'⟩ := splitInto_returns hlu hl hu
  obtain ⟨p', written, hp'⟩ := permutationInto_returns (Elimination.run a).pivots hp
  exact ⟨_, lu, l', u', p', _, _, _, factored, splitted, hl', hu', written, hp',
    isFactorization_run a⟩

/-- Both steps that clear anything exchange rows here, the second one after a multiplier
has been put in place. The matrix lies in the middle of its store. -/
def lateExchange : Tensor ℚ :=
  ⟨⟨[3, 3], [3, 1], 9, rfl, rfl⟩, #[0, 1, 5, 3, 2, 4, 1, 4, 0, 2, 0], 1, by decide⟩

theorem lateExchange_divides :
    Elimination.DividesByNonzero (lateExchange.matrix (rfl : _ = [3, 3])) := by
  unfold Elimination.DividesByNonzero
  decide +kernel

theorem factorInPlace_isFactorization_lateExchange :
    ∃ (pivots : Pivots 3) (lu l u p : Tensor ℚ) (ml mu mp : Mat ℚ 3 3),
      Returns factorInPlace lateExchange ⟨3, pivots⟩ lu ∧
      Returns (splitInto lu) (lateExchange, lateExchange) () (l, u) ∧ l.Holds ml ∧ u.Holds mu ∧
      Returns (permutationInto pivots) lateExchange () p ∧ p.Holds mp ∧
      IsFactorization (lateExchange.matrix rfl) mp ml mu :=
  (factorInPlace_isFactorization ⟨rfl, rfl⟩ rfl rfl rfl).2 lateExchange_divides

/-- The inverse solves with both triangles for the permutation, whatever the matrix on
whose diagonal nothing is zero, and whatever the pivots. -/
theorem inverseInto_isInverse {x : Tensor α} (hx : x.shape = [n, n]) :
    (∀ (lu : Tensor α) (f : Mat α n n) (pivots : Pivots n), lu.Holds f →
      (∀ i, f.entry i i ≠ 0) →
        ∃ (x' : Tensor α) (mx : Mat α n n), Returns (inverseInto lu pivots) x () x' ∧ x'.Holds mx ∧
          f.lower.toMatrix * f.upper.toMatrix * mx.toMatrix =
            Matrix.of fun i j => if pivots.rows.get i = j then 1 else 0) ∧
      ∀ (t : Tensor α) (a : Mat α n n), t.Holds a → IsUnit a.toMatrix →
        ∃ (pivots : Pivots n) (lu x' : Tensor α) (mx : Mat α n n),
          Returns factorInPlace t ⟨n, pivots⟩ lu ∧ Returns (inverseInto lu pivots) x () x' ∧
          x'.Holds mx ∧ a.toMatrix * mx.toMatrix = 1 ∧ mx.toMatrix * a.toMatrix = 1 := by
  constructor
  · intro lu f pivots hlu nonzero
    obtain ⟨x', solved, hx'⟩ := inverseInto_returns pivots hlu hx
    refine ⟨x', _, solved, hx', ?_⟩
    rw [Matrix.mul_assoc, Mat.lower_mul_upper_mul_inverse nonzero]
    ext i j
    rw [Mat.toMatrix_apply, Mat.entry_permutation]
    exact if_congr eq_comm rfl rfl
  · intro t a ht invertible
    obtain ⟨lu, factored, hlu⟩ := factorInPlace_returns ht
    obtain ⟨x', solved, hx'⟩ := inverseInto_returns (Elimination.run a).pivots hlu hx
    have right := Elimination.mul_inverse_run invertible
    exact ⟨_, lu, x', _, factored, solved, hx', right, mul_eq_one_comm.mp right⟩

theorem inverseInto_isInverse_lateExchange :
    (∃ (x : Tensor ℚ) (mx : Mat ℚ 3 3),
      Returns (inverseInto lateExchange ⟨#v[2, 0, 2], 5⟩) lateExchange () x ∧ x.Holds mx ∧
      (lateExchange.matrix rfl).lower.toMatrix * (lateExchange.matrix rfl).upper.toMatrix *
        mx.toMatrix =
          Matrix.of fun i j => if (#v[2, 0, 2] : Vector (Fin 3) 3).get i = j then 1 else 0) ∧
    ∃ (pivots : Pivots 3) (lu x : Tensor ℚ) (mx : Mat ℚ 3 3),
      Returns factorInPlace lateExchange ⟨3, pivots⟩ lu ∧
      Returns (inverseInto lu pivots) lateExchange () x ∧ x.Holds mx ∧
      (lateExchange.matrix rfl).toMatrix * mx.toMatrix = 1 ∧
      mx.toMatrix * (lateExchange.matrix rfl).toMatrix = 1 := by
  have invertible : IsUnit (lateExchange.matrix (rfl : _ = [3, 3])).toMatrix := by
    rw [Matrix.isUnit_iff_isUnit_det, isUnit_iff_ne_zero]
    decide +kernel
  exact ⟨(inverseInto_isInverse rfl).1 lateExchange _ ⟨#v[2, 0, 2], 5⟩ ⟨rfl, rfl⟩
      (by decide +kernel),
    (inverseInto_isInverse rfl).2 lateExchange _ ⟨rfl, rfl⟩ invertible⟩

end Linear
end RowMajor

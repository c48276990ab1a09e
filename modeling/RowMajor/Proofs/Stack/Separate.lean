import Mathlib
import RowMajor.Proofs.Stack.Singular

/-! Operations on stacks, matrix by matrix. What an operation gives at a multi-index is what
the operation on one matrix gives for a copy of the matrix there, whatever the others are. -/
namespace RowMajor.Stack
open Layout (InBounds rowOffset)
open InPlace (Returns)
open Tensor (CanMake)
variable {α : Type} {n m : Nat} {stack : List Nat} {a : Tensor α}

/-- What holds, for each multi-index of the stack, of a copy of the matrix there. -/
def ForEachMatrix (a : Tensor α) (stack : List Nat) (holds : List Nat → Tensor α → Prop) : Prop :=
  ∀ b, InBounds stack b → ∃ c, a.IsCopy b c ∧ holds b c

/-- A tensor that is to be written, with any elements. -/
structure IsTarget (shape : List Nat) (t : Tensor α) : Prop where
  shape_eq : t.shape = shape
  addressable : t.Addressable

theorem forEachMatrix {matrices : List (Mat α n m)} (h : a.IsStack stack matrices)
    (ha : a.Addressable) {holds : List Nat → Tensor α → Prop}
    (each : ∀ b c x, InBounds stack b → a.IsCopy b c → c.Holds x →
      AgreesAt matrices (rowOffset stack b) x → holds b c) : ForEachMatrix a stack holds := by
  intro b hb
  obtain ⟨c, x, copy, here, same⟩ := h.exists_copy ha hb
  exact ⟨c, copy, each b c x hb copy here same⟩

variable [Scalar α] {matrices : List (Mat α n n)}

theorem factor_separates (h : a.IsStack stack matrices) (ha : a.Addressable) :
    ∃ lu pivots outer, Gives (factor a) (.ok (lu, pivots)) ∧ Layout.ofShape stack = .ok outer ∧
      ForEachMatrix a stack fun b c => ∃ (q : Pivots n) (lu' : Tensor α),
        Returns Linear.factorInPlace c ⟨n, q⟩ lu' ∧ lu.IsPart b lu' ∧
        (0 < n → ∃ k, outer.offset b = .ok k ∧ pivots[k]? = some ⟨n, q⟩) := by
  obtain ⟨⟨lu, _⟩, gives, factors, small, rfl⟩ := factor_ensures h
  obtain ⟨⟨outer, made⟩, _⟩ := Layout.exists_ofShape_append h.shape_eq
  have shape := Layout.shape_of_ofShape made
  refine ⟨lu, _, outer, gives, made, forEachMatrix h ha ?_⟩
  rintro b c _ hb copy ⟨square, rfl⟩ same
  refine ⟨_, _, fun log => ⟨_, Linear.factorInPlace_ends square log⟩, ?_, fun pos => ?_⟩
  · exact factors.isPart small (copy.addressable.withMatrix square _) hb
      (c.holds_withMatrix square _) (same.map _)
  · have some := Tensor.product_square_ne_zero (Nat.ne_of_gt pos)
    refine ⟨rowOffset stack b, ?_, ?_⟩
    · rw [← shape] at hb ⊢
      exact Layout.offset_eq hb
    · rw [List.getElem?_map, h.getElem?_eq some hb same]
      rfl

theorem factorWithPivots_separates (h : a.IsStack stack matrices) (ha : a.Addressable)
    (room : CanMake a.shape) :
    ∃ out, Gives (factorWithPivots a) (.ok out) ∧
      ForEachMatrix a stack fun b c => ∃ (q : Pivots n) (lu : Tensor α),
        Returns Linear.factorInPlace c ⟨n, q⟩ lu ∧
        (∀ p, IsTarget [n, n] p → ∃ p', Returns (Linear.permutationInto q) p () p' ∧
          out.permutation.IsPart b p') ∧
        ∀ l u, IsTarget [n, n] l → IsTarget [n, n] u →
          ∃ l' u', Returns (Linear.splitInto lu) (l, u) () (l', u') ∧
            out.lower.IsPart b l' ∧ out.upper.IsPart b u' := by
  obtain ⟨out, gives, ⟨permuted, lower, upper⟩, smallP, smallL, smallU⟩ :=
    factorWithPivots_ensures h room
  refine ⟨out, gives, forEachMatrix h ha ?_⟩
  intro b c x hb copy here same
  obtain ⟨lu, factored, square, factors⟩ := Linear.factorInPlace_returns here
  refine ⟨_, lu, factored, ?_, ?_⟩
  · intro p hp
    exact ⟨_, fun log => ⟨_, Linear.permutationInto_ends _ hp.shape_eq log⟩,
      permuted.isPart smallP (hp.addressable.withMatrix hp.shape_eq _) hb (p.holds_withMatrix _ _)
        (same.map _)⟩
  · intro l u hl hu
    refine ⟨_, _, fun log => ⟨_, Linear.splitInto_ends square hl.shape_eq hu.shape_eq log⟩, ?_⟩
    rw [factors]
    exact ⟨lower.isPart smallL (hl.addressable.withMatrix hl.shape_eq _) hb
        (l.holds_withMatrix _ _) (same.map _),
      upper.isPart smallU (hu.addressable.withMatrix hu.shape_eq _) hb (u.holds_withMatrix _ _)
        (same.map _)⟩

theorem inverse_separates (h : a.IsStack stack matrices) (ha : a.Addressable)
    (room : CanMake a.shape) :
    ∃ out, Gives (inverse a) (.ok out) ∧
      ForEachMatrix a stack fun b c => ∃ (q : Pivots n) (lu : Tensor α),
        Returns Linear.factorInPlace c ⟨n, q⟩ lu ∧
        ∀ x, IsTarget [n, n] x → ∃ x', Returns (Linear.inverseInto lu q) x () x' ∧
          out.IsPart b x' := by
  obtain ⟨out, gives, inverted, small⟩ := inverse_ensures h room
  refine ⟨out, gives, forEachMatrix h ha ?_⟩
  intro b c y hb copy here same
  obtain ⟨lu, factored, square, factors⟩ := Linear.factorInPlace_returns here
  refine ⟨_, lu, factored, fun x hx =>
    ⟨_, fun log => ⟨_, Linear.inverseInto_ends _ square hx.shape_eq log⟩, ?_⟩⟩
  rw [factors]
  exact inverted.isPart small (hx.addressable.withMatrix hx.shape_eq _) hb (x.holds_withMatrix _ _)
    (same.map _)

theorem orthogonal_separates (h : a.IsStack stack matrices) (ha : a.Addressable)
    (room : CanMake a.shape) :
    ∃ out, Gives (orthogonal a) (.ok out) ∧
      ForEachMatrix a stack fun b c => ∀ q r, IsTarget [n, n] q → IsTarget [n, n] r →
        ∃ q' r', Returns (Linear.orthogonalInto c) (q, r) () (q', r') ∧
          out.1.IsPart b q' ∧ out.2.IsPart b r' := by
  obtain ⟨out, gives, ⟨columns, upper⟩, smallQ, smallR⟩ := orthogonal_ensures h room
  refine ⟨out, gives, forEachMatrix h ha ?_⟩
  rintro b c _ hb copy ⟨square, rfl⟩ same q r hq hr
  exact ⟨_, _, fun log => ⟨_, Linear.orthogonalInto_ends square hq.shape_eq hr.shape_eq log⟩,
    columns.isPart smallQ (hq.addressable.withMatrix hq.shape_eq _) hb (q.holds_withMatrix _ _)
      (same.map _),
    upper.isPart smallR (hr.addressable.withMatrix hr.shape_eq _) hb (r.holds_withMatrix _ _)
      (same.map _)⟩

theorem inBounds_numbers {b : List Nat} (hb : InBounds stack b) :
    InBounds (numbersShape stack) (if stack.isEmpty then [0] else b) ∧
      rowOffset (numbersShape stack) (if stack.isEmpty then [0] else b) = rowOffset stack b := by
  cases hb with
  | nil => exact ⟨.cons Nat.one_pos .nil, rfl⟩
  | cons below rest => exact ⟨.cons below rest, rfl⟩

theorem determinant_of_empty (x : Mat α 0 0) :
    (Elimination.run x).matrix.determinant (Elimination.run x).pivots = 1 := by
  simp [Mat.determinant, Elimination.run, Elimination.start, Pivots.identity, Pivots.sign]

theorem determinant_separates (h : a.IsStack stack matrices) (ha : a.Addressable)
    (room : n = 0 → CanMake (numbersShape stack)) :
    ∃ out, Gives (determinant a) (.ok out) ∧ out.shape = numbersShape stack ∧
      ForEachMatrix a stack fun b c => ∃ (q : Pivots n) (lu : Tensor α) (x : α),
        Returns Linear.factorInPlace c ⟨n, q⟩ lu ∧ Linear.determinant lu q = .ok x ∧
        out.read (if stack.isEmpty then [0] else b) = .ok x := by
  by_cases none : n = 0
  · subst none
    obtain ⟨out, gives, shape, small, ones⟩ := determinant_ensures_one h.shape_eq (room rfl)
    refine ⟨out, gives, shape, forEachMatrix h ha ?_⟩
    intro b c x hb _ here _
    obtain ⟨lu, factored, factors⟩ := Linear.factorInPlace_returns here
    refine ⟨_, lu, _, factored, Linear.determinant_eq_ok _ factors, ?_⟩
    obtain ⟨y, there, read⟩ := Tensor.read_eq small (shape ▸ (inBounds_numbers hb).1)
    rw [read, ones y (List.mem_of_getElem? there), determinant_of_empty]
  · obtain ⟨out, gives, shape, small, numbers⟩ := determinant_ensures h none
    refine ⟨out, gives, shape, forEachMatrix h ha ?_⟩
    intro b c x hb _ here same
    obtain ⟨lu, factored, factors⟩ := Linear.factorInPlace_returns here
    refine ⟨_, lu, _, factored, Linear.determinant_eq_ok _ factors, ?_⟩
    obtain ⟨inside, place⟩ := inBounds_numbers hb
    have some := Tensor.product_square_ne_zero none
    apply Tensor.read_eq_ok small (shape ▸ inside)
    rw [shape, place, numbers, List.getElem?_map, h.getElem?_eq some hb same]
    rfl

/-- Somewhere in the stack two entries that mirror each other differ by more than `epsilon`. -/
def SomewhereAsymmetric (a : Tensor α) (stack : List Nat) (n : Nat) (epsilon : α) : Prop :=
  ∃ (b : List Nat) (i j : Nat) (x y : α), InBounds stack b ∧ j < i ∧ i < n ∧
    a.read (b ++ [i, j]) = .ok x ∧ a.read (b ++ [j, i]) = .ok y ∧
    Scalar.less epsilon (Scalar.abs (x - y)) = true

theorem somewhereAsymmetric_iff (h : a.IsStack stack matrices) (ha : a.Addressable) (epsilon : α) :
    SomewhereAsymmetric a stack n epsilon ↔ ∃ x ∈ matrices, Asymmetric epsilon x := by
  constructor
  · rintro ⟨b, i, j, x, y, hb, less, below, readX, readY, far⟩
    obtain ⟨c, z, copy, here, same⟩ := h.exists_copy ha hb
    have some := Tensor.product_square_ne_zero (show n ≠ 0 by omega)
    have below' : j < n := Nat.lt_trans less below
    cases readX.symm.trans (copy.read here ⟨i, below⟩ ⟨j, below'⟩)
    cases readY.symm.trans (copy.read here ⟨j, below'⟩ ⟨i, below⟩)
    exact ⟨z, List.mem_of_getElem? (h.getElem?_eq some hb same), ⟨i, below⟩, ⟨j, below'⟩, less, far⟩
  · rintro ⟨x, mem, i, j, less, far⟩
    obtain ⟨k, hk, rfl⟩ := List.mem_iff_getElem.mp mem
    obtain ⟨b, hb, rfl⟩ := h.exists_index hk
    obtain ⟨c, z, copy, here, same⟩ := h.exists_copy ha hb
    rw [same _ (List.getElem?_eq_getElem hk)] at far
    exact ⟨b, i, j, _, _, hb, less, i.isLt, copy.read here i j, copy.read here j i, far⟩

theorem cholesky_separates {a : Tensor Float} {matrices : List (Mat Float n n)}
    (h : a.IsStack stack matrices) (ha : a.Addressable) (epsilon : Float) :
    (SomewhereAsymmetric a stack n epsilon →
      Gives (cholesky a epsilon) (.error (.notSymmetric epsilon))) ∧
    (¬ SomewhereAsymmetric a stack n epsilon → CanMake a.shape →
      ∃ out, Gives (cholesky a epsilon) (.ok out) ∧
        ForEachMatrix a stack fun b c => ∀ l, IsTarget [n, n] l →
          ∃ l', Returns (Linear.choleskyInto c) l () l' ∧ out.IsPart b l') := by
  rw [somewhereAsymmetric_iff h ha]
  refine ⟨cholesky_refuses h, fun even room => ?_⟩
  push Not at even
  obtain ⟨out, gives, lower, small⟩ := cholesky_ensures h even room
  refine ⟨out, gives, forEachMatrix h ha ?_⟩
  rintro b c _ hb copy ⟨square, rfl⟩ same l hl
  exact ⟨_, fun log => ⟨_, Linear.choleskyInto_ends square hl.shape_eq log⟩,
    lower.isPart small (hl.addressable.withMatrix hl.shape_eq _) hb (l.holds_withMatrix _ _)
      (same.map _)⟩

end RowMajor.Stack

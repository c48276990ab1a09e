import Mathlib
import RowMajor.Proofs.Linear.Factor
import RowMajor.Proofs.Stack.Outcome
import RowMajor.Proofs.Stack.Pieces

/-! Operations on stacks of square matrices. Each is the operation on one matrix, mapped over
the list of matrices. -/
namespace RowMajor.Stack
open Tensor (CanMake)
variable {α : Type} {n m : Nat} {stack : List Nat} {a : Tensor α}

theorem requireSquares (h : a.shape = stack ++ [n, n]) :
    (discard (squareDim a.shape) : Except Error PUnit) = .ok ⟨⟩ := by
  rw [h, squareDim_eq]
  rfl

theorem isStack_copy {matrices : List (Mat α n m)} (h : a.IsStack stack matrices) :
    a.copy.IsStack stack matrices where
  shape_eq := h.shape_eq
  count_eq := h.count_eq
  uniform := h.uniform
  cells_eq := (Tensor.toList_cells_copy a).trans h.cells_eq

/-- One number for each matrix of a stack, and one for a matrix that is no stack. -/
def numbersShape (stack : List Nat) : List Nat :=
  if stack.isEmpty then [1] else stack

theorem stackDims_eq (stack : List Nat) (n m : Nat) : stackDims (stack ++ [n, m]) = stack := by
  simp [stackDims]

theorem product_numbersShape (stack : List Nat) :
    Layout.product (numbersShape stack) = Layout.product stack := by
  cases stack <;> rfl

theorem exists_numbersLayout (h : a.shape = stack ++ [n, m]) :
    ∃ layout, Layout.ofShape (numbersShape stack) = .ok layout := by
  obtain ⟨⟨outer, made⟩, _⟩ := Layout.exists_ofShape_append h
  cases stack with
  | nil => exact ⟨_, Layout.ofShape_self ⟨[1], [1], 1, rfl, rfl⟩⟩
  | cons size rest => exact ⟨outer, made⟩

theorem canMake_numbers (h : a.shape = stack ++ [n, m])
    (few : Layout.product stack < Word.room) : CanMake (numbersShape stack) := by
  obtain ⟨layout, made⟩ := exists_numbersLayout h
  have shape := Layout.shape_of_ofShape made
  rw [← shape]
  refine Tensor.canMake_of_layout ?_
  rwa [layout.size_eq_product, shape, product_numbersShape]

variable [Scalar α] {matrices : List (Mat α n n)}

/-- A stack to be written, of the shape of the one that is read, and its chunks. -/
theorem exists_blank {matrices : List (Mat α n m)} (h : a.IsStack stack matrices)
    (room : CanMake a.shape) :
    ∃ blank targets, Tensor.filled a.shape (0 : α) = .ok blank ∧ blank.shape = stack ++ [n, m] ∧
      blank.Addressable ∧ (blank.chunks 2).run = .ok (.ok targets) ∧
      List.Forall₂ (fun target _ => target.shape = [n, m]) targets matrices := by
  obtain ⟨blank, made, shape, small, _⟩ := Tensor.exists_filled room (0 : α)
  rw [h.shape_eq] at shape
  obtain ⟨targets, cut, fit⟩ := Tensor.exists_targets shape h.length_eq
  exact ⟨blank, targets, made, shape, small, cut, fit⟩

theorem factor_ensures (h : a.IsStack stack matrices) :
    Ensures (factor a) fun done =>
      done.1.IsStack stack (matrices.map fun b => (Elimination.run b).matrix) ∧
      done.1.Addressable ∧ done.2 = matrices.map fun b => ⟨n, (Elimination.run b).pivots⟩ := by
  obtain ⟨_, tasks, _, cut, _, along⟩ := (isStack_copy h).sequences
  refine .step (.discard (requireSquares h.shape_eq)) (.step (.within cut) ?_)
  refine .bind (.dispatch (fun (y : AnyPivots × Tensor α) (b : Mat α n n) =>
    y.1 = ⟨n, (Elimination.run b).pivots⟩ ∧ y.2.Holds (Elimination.run b).matrix) along ?_)
    fun done all => .pure ⟨?_, ?_, ?_⟩
  · rintro target b ⟨shape, rfl⟩
    exact ⟨_, Gives.onOwn fun log => ⟨_, Linear.factorInPlace_ends shape log⟩, rfl,
      target.holds_withMatrix shape _⟩
  · exact Tensor.isStack_withChunks (isStack_copy h).shape_eq h.length_eq all
      fun _ _ fits => fits.2
  · exact Tensor.addressable_compact a.layout a.cells
  · exact List.forall₂_eq_eq_eq ▸ forall₂_map_both all fun _ _ fits => fits.1

/-- The factors of every matrix and its pivots, taken together. -/
theorem factors_along {items : List (Tensor α)}
    (h : List.Forall₂ Tensor.Holds items (matrices.map fun b => (Elimination.run b).matrix)) :
    List.Forall₂ (fun pair b => pair.1.Holds (Elimination.run b).matrix ∧
      pair.2 = ⟨n, (Elimination.run b).pivots⟩)
      (items.zip (matrices.map fun b => (⟨n, (Elimination.run b).pivots⟩ : AnyPivots))) matrices :=
  forall₂_zip_along (List.forall₂_map_right_iff.mp h) (forall₂_map_self _ matrices)

theorem factorWithPivots_ensures (h : a.IsStack stack matrices) (room : CanMake a.shape) :
    Ensures (factorWithPivots a) fun out =>
      (out.permutation.IsStack stack
          (matrices.map fun b => (.permutation (Elimination.run b).pivots : Mat α n n)) ∧
        out.lower.IsStack stack (matrices.map fun b => (Elimination.run b).matrix.lower) ∧
        out.upper.IsStack stack (matrices.map fun b => (Elimination.run b).matrix.upper)) ∧
      out.permutation.Addressable ∧ out.lower.Addressable ∧ out.upper.Addressable := by
  obtain ⟨blank, targets, made, shape, small, cut, fit⟩ := exists_blank h room
  refine .bind (factor_ensures h) ?_
  rintro ⟨lu, pivots⟩ ⟨factors, _, rfl⟩
  obtain ⟨items, _, read, _, holds, _⟩ := factors.sequences
  refine .step (.create made) (.step (.create made) (.step (.create made) ?_))
  refine .step (.within read) (.step (.within cut) (.step (.within cut) (.step (.within cut) ?_)))
  have tasks := forall₂_zip_along (forall₂_zip_along (forall₂_zip_along
    (factors_along holds) fit) fit) fit
  refine .bind (.dispatch (fun (y : Tensor α × Tensor α × Tensor α) (b : Mat α n n) =>
    y.1.Holds (.permutation (Elimination.run b).pivots : Mat α n n) ∧
      y.2.1.Holds (Elimination.run b).matrix.lower ∧ y.2.2.Holds (Elimination.run b).matrix.upper)
    tasks ?_) fun done all => .pure ⟨⟨?_, ?_, ?_⟩, small, small, small⟩
  · rintro ⟨⟨⟨⟨item, _⟩, p⟩, l⟩, u⟩ b ⟨⟨⟨⟨⟨square, same⟩, rfl⟩, hp⟩, hl⟩, hu⟩
    have permuted : Gives ((Linear.permutationInto (Elimination.run b).pivots).onOwn p) _ :=
      .onOwn fun log => ⟨_, Linear.permutationInto_ends (Elimination.run b).pivots hp log⟩
    have separated : Gives ((Linear.splitInto item).onOwn (l, u)) _ :=
      .onOwn fun log => ⟨_, Linear.splitInto_ends square hl hu log⟩
    refine .step permuted (.step separated (.pure ?_))
    rw [← same]
    exact ⟨p.holds_withMatrix hp _, l.holds_withMatrix hl _, u.holds_withMatrix hu _⟩
  · exact Tensor.isStack_withChunks shape h.length_eq all fun _ _ fits => fits.1
  · exact Tensor.isStack_withChunks shape h.length_eq all fun _ _ fits => fits.2.1
  · exact Tensor.isStack_withChunks shape h.length_eq all fun _ _ fits => fits.2.2

theorem inverse_ensures (h : a.IsStack stack matrices) (room : CanMake a.shape) :
    Ensures (inverse a) fun out =>
      out.IsStack stack (matrices.map fun b =>
        (Elimination.run b).matrix.inverse (Elimination.run b).pivots) ∧ out.Addressable := by
  obtain ⟨blank, targets, made, shape, small, cut, fit⟩ := exists_blank h room
  refine .bind (factor_ensures h) ?_
  rintro ⟨lu, pivots⟩ ⟨factors, _, rfl⟩
  obtain ⟨items, _, read, _, holds, _⟩ := factors.sequences
  refine .step (.create made) (.step (.within read) (.step (.within cut) ?_))
  refine .bind (.dispatch (fun (y : Unit × Tensor α) (b : Mat α n n) =>
    y.2.Holds ((Elimination.run b).matrix.inverse (Elimination.run b).pivots))
    (forall₂_zip_along (factors_along holds) fit) ?_) fun done all => .pure ⟨?_, small⟩
  · rintro ⟨⟨item, _⟩, x⟩ b ⟨⟨⟨square, same⟩, rfl⟩, hx⟩
    refine ⟨_, .onOwn fun log => ⟨_, Linear.inverseInto_ends _ square hx log⟩, ?_⟩
    rw [← same]
    exact x.holds_withMatrix hx _
  · exact Tensor.isStack_withChunks shape h.length_eq all fun _ _ fits => fits

theorem orthogonal_ensures (h : a.IsStack stack matrices) (room : CanMake a.shape) :
    Ensures (orthogonal a) fun out =>
      (out.1.IsStack stack (matrices.map fun b => (Orthogonal.run b).q) ∧
        out.2.IsStack stack (matrices.map fun b => (Orthogonal.run b).r)) ∧
      out.1.Addressable ∧ out.2.Addressable := by
  obtain ⟨blank, targets, made, shape, small, cut, fit⟩ := exists_blank h room
  obtain ⟨items, _, read, _, holds, _⟩ := h.sequences
  refine .step (.discard (requireSquares h.shape_eq)) ?_
  refine .step (.create made) (.step (.create made) ?_)
  refine .step (.within read) (.step (.within cut) (.step (.within cut) ?_))
  refine .bind (.dispatch (fun (y : Unit × Tensor α × Tensor α) (b : Mat α n n) =>
    y.2.1.Holds (Orthogonal.run b).q ∧ y.2.2.Holds (Orthogonal.run b).r)
    (forall₂_zip_along (forall₂_zip_along holds fit) fit) ?_)
    fun done all => .pure ⟨⟨?_, ?_⟩, small, small⟩
  · rintro ⟨⟨item, q⟩, r⟩ b ⟨⟨⟨square, same⟩, hq⟩, hr⟩
    refine ⟨_, .onOwn fun log => ⟨_, Linear.orthogonalInto_ends square hq hr log⟩, ?_⟩
    rw [← same]
    exact ⟨q.holds_withMatrix hq _, r.holds_withMatrix hr _⟩
  · exact Tensor.isStack_withChunks shape h.length_eq all fun _ _ fits => fits.1
  · exact Tensor.isStack_withChunks shape h.length_eq all fun _ _ fits => fits.2

/-- Two entries that mirror each other differ by more than `epsilon`. -/
def Asymmetric (epsilon : α) (b : Mat α n n) : Prop :=
  ∃ i j : Fin n, j < i ∧ Scalar.less epsilon (Scalar.abs (b.entry i j - b.entry j i)) = true

theorem isAsymmetric_iff {t : Tensor α} {b : Mat α n n} (h : t.Holds b) (epsilon : α) :
    isAsymmetric epsilon t = true ↔ Asymmetric epsilon b := by
  obtain ⟨shape, rfl⟩ := h
  simp only [isAsymmetric, requireSquare_eq shape, List.any_eq_true, List.mem_finRange, true_and,
    Bool.and_eq_true, decide_eq_true_eq, Asymmetric]

theorem any_isAsymmetric_iff {items : List (Tensor α)}
    (h : List.Forall₂ Tensor.Holds items matrices) (epsilon : α) :
    items.any (isAsymmetric epsilon) = true ↔ ∃ b ∈ matrices, Asymmetric epsilon b := by
  induction h with
  | nil => simp
  | cons here _ ih =>
      simp only [List.any_cons, Bool.or_eq_true, isAsymmetric_iff here, ih, List.mem_cons,
        exists_eq_or_imp]

theorem cholesky_refuses {a : Tensor Float} {matrices : List (Mat Float n n)}
    (h : a.IsStack stack matrices) {epsilon : Float}
    (uneven : ∃ b ∈ matrices, Asymmetric epsilon b) :
    Gives (cholesky a epsilon) (.error (.notSymmetric epsilon)) := by
  obtain ⟨items, _, read, _, holds, _⟩ := h.sequences
  refine .bind (.discard (requireSquares h.shape_eq)) (.bind (.within read) ?_)
  rw [if_pos ((any_isAsymmetric_iff holds epsilon).mpr uneven)]
  exact .bind_error .throw

theorem cholesky_ensures {a : Tensor Float} {matrices : List (Mat Float n n)}
    (h : a.IsStack stack matrices) {epsilon : Float}
    (even : ∀ b ∈ matrices, ¬ Asymmetric epsilon b) (room : CanMake a.shape) :
    Ensures (cholesky a epsilon) fun out =>
      out.IsStack stack (matrices.map Mat.cholesky) ∧ out.Addressable := by
  obtain ⟨blank, targets, made, shape, small, cut, fit⟩ := exists_blank h room
  obtain ⟨items, _, read, _, holds, _⟩ := h.sequences
  refine .step (.discard (requireSquares h.shape_eq)) (.step (.within read) ?_)
  rw [if_neg (by rw [any_isAsymmetric_iff holds]; push Not; exact even)]
  refine .step (.create made) (.step (.within cut) ?_)
  refine .bind (.dispatch (fun (y : Unit × Tensor Float) (b : Mat Float n n) =>
    y.2.Holds b.cholesky) (forall₂_zip_along holds fit) ?_) fun done all => .pure ⟨?_, small⟩
  · rintro ⟨item, x⟩ b ⟨⟨square, same⟩, hx⟩
    refine ⟨_, .onOwn fun log => ⟨_, Linear.choleskyInto_ends square hx log⟩, ?_⟩
    rw [← same]
    exact x.holds_withMatrix hx _
  · exact Tensor.isStack_withChunks shape h.length_eq all fun _ _ fits => fits

/-- Matrices of size zero are not counted, so that their determinants are not computed. -/
theorem determinant_ensures_one (h : a.shape = stack ++ [0, 0])
    (room : CanMake (numbersShape stack)) :
    Ensures (determinant a) fun out =>
      out.shape = numbersShape stack ∧ out.Addressable ∧ ∀ x ∈ out.cells.toList, x = 1 := by
  obtain ⟨ones, made, fits⟩ := Tensor.exists_filled room (1 : α)
  rw [numbersShape, ← stackDims_eq stack 0 0, ← h] at made
  refine .step (.lift (h ▸ squareDim_eq stack 0)) ?_
  rw [if_pos rfl]
  exact ⟨ones, .create made, fits⟩

theorem determinant_ensures (h : a.IsStack stack matrices) (some : n ≠ 0) :
    Ensures (determinant a) fun out =>
      out.shape = numbersShape stack ∧ out.Addressable ∧ out.cells.toList = matrices.map fun b =>
        (Elimination.run b).matrix.determinant (Elimination.run b).pivots := by
  obtain ⟨layout, made⟩ := exists_numbersLayout h.shape_eq
  have shape := Layout.shape_of_ofShape made
  rw [numbersShape, ← stackDims_eq stack n n, ← h.shape_eq] at made
  refine .step (.lift (h.shape_eq ▸ squareDim_eq stack n)) ?_
  rw [if_neg some]
  refine .bind (factor_ensures h) ?_
  rintro ⟨lu, pivots⟩ ⟨factors, _, rfl⟩
  obtain ⟨items, _, read, _, holds, _⟩ := factors.sequences
  refine .step (.within read) ?_
  refine .bind (.mapM (fun x (b : Mat α n n) =>
    x = (Elimination.run b).matrix.determinant (Elimination.run b).pivots)
    (factors_along holds) ?_) fun values all => .step (.create made) ?_
  · rintro ⟨item, _⟩ b ⟨same, rfl⟩
    exact ⟨_, .lift (Linear.determinant_eq_ok _ same), rfl⟩
  · have counted : values.toArray.size = layout.size := by
      rw [List.size_toArray, all.length_eq,
        h.length_eq_product (Tensor.product_square_ne_zero some), layout.size_eq_product, shape,
        product_numbersShape]
    refine ⟨_, .lift (dif_pos counted), shape, Tensor.addressable_compact layout _, ?_⟩
    refine (congrArg Vector.toList (Tensor.cells_compact layout ⟨values.toArray, counted⟩)).trans ?_
    exact List.forall₂_eq_eq_eq ▸ List.forall₂_map_right_iff.mpr all

end RowMajor.Stack

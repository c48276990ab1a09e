import Mathlib
import RowMajor.Proofs.Stack.Independent

/-! Pivots and determinants of stacks, side by side. There are pivots for every matrix that a
stack is cut into. Where matrices have entries these are all of them, and the determinants
come in the same order. Matrices without entries are not cut out: they have no pivots, but
every one of them has a determinant. -/
namespace RowMajor.Stack
open Layout (product)
variable {α : Type} {n : Nat} {stack : List Nat} {a : Tensor α}

/-- One entry of dimension `n` for each matrix that is cut out, and these are the matrices of
the stack unless they are empty. -/
structure Counted (a : Tensor α) (pivots : List AnyPivots) (stack : List Nat) (n : Nat) :
    Prop where
  cut_length : ∃ items, (a.items 2).run = .ok (.ok items) ∧ pivots.length = items.length
  dimension_eq : ∀ entry ∈ pivots, entry.1 = n
  length_eq : 0 < n → pivots.length = product stack
  eq_nil : n = 0 → pivots = []

theorem counted_map {matrices : List (Mat α n n)} (h : a.IsStack stack matrices)
    (pivots : Mat α n n → Pivots n) : Counted a (matrices.map fun b => ⟨n, pivots b⟩) stack n where
  cut_length := by
    obtain ⟨items, _, read, _, along, _⟩ := h.sequences
    exact ⟨items, read, (List.length_map _).trans along.length_eq.symm⟩
  dimension_eq entry mem := by
    obtain ⟨b, _, rfl⟩ := List.mem_map.mp mem
    rfl
  length_eq pos := by
    rw [List.length_map, h.length_eq_product (Tensor.product_square_ne_zero (Nat.ne_of_gt pos))]
  eq_nil none := by
    have empty : product [n, n] = 0 := by simp [product, none]
    rw [List.map_eq_nil_iff, ← List.length_eq_zero_iff, h.length_eq, pieceCount, if_pos empty]

variable [Scalar α]

/-- There are as many determinants as pivots, and each is that of the combined factors and the
pivots at its place. -/
structure Paired (factors : Tensor α) (pivots : List AnyPivots) (determinants : List α) :
    Prop where
  length_eq : determinants.length = pivots.length
  determined : ∃ items, (factors.items 2).run = .ok (.ok items) ∧ items.length = pivots.length ∧
    List.Forall₂ (fun pair x => Linear.determinant pair.1 pair.2.2 = .ok x) (items.zip pivots)
      determinants

theorem paired_map {matrices : List (Mat α n n)} {lu : Tensor α}
    (h : lu.IsStack stack (matrices.map fun b => (Elimination.run b).matrix)) :
    Paired lu (matrices.map fun b => ⟨n, (Elimination.run b).pivots⟩)
      (matrices.map fun b =>
        (Elimination.run b).matrix.determinant (Elimination.run b).pivots) where
  length_eq := by rw [List.length_map, List.length_map]
  determined := by
    obtain ⟨items, _, read, _, holds, _⟩ := h.sequences
    refine ⟨items, read, ?_, ?_⟩
    · rw [holds.length_eq, List.length_map, List.length_map]
    · refine List.forall₂_map_right_iff.mpr ((factors_along holds).imp ?_)
      rintro ⟨item, _⟩ b ⟨same, rfl⟩
      exact Linear.determinant_eq_ok _ same

theorem determinant_ensures_replicate (shape : a.shape = stack ++ [0, 0])
    (few : product stack < Word.room) : ∃ out, Gives (determinant a) (.ok out) ∧
      out.cells.toList = List.replicate (product stack) 1 := by
  obtain ⟨out, determined, outShape, _, ones⟩ :=
    determinant_ensures_one shape (canMake_numbers shape few)
  have count : out.cells.toList.length = product stack := by
    rw [Vector.length_toList, out.size_eq_product, ← product_numbersShape stack, ← outShape]
  exact ⟨out, determined, List.eq_replicate_iff.mpr ⟨count, ones⟩⟩

/-- Matrices with entries have pivots, one for each matrix of the stack, and the determinants go
along with them. Matrices without entries have no pivots, and their determinants are one. -/
theorem factor_countsPivots (shape : a.shape = stack ++ [n, n]) :
    ∃ lu pivots, Gives (factor a) (.ok (lu, pivots)) ∧ Counted a pivots stack n ∧
      (0 < n → ∃ out, Gives (determinant a) (.ok out) ∧ Paired lu pivots out.cells.toList) ∧
      (n = 0 → product stack < Word.room → ∃ out, Gives (determinant a) (.ok out) ∧
        out.cells.toList = List.replicate (product stack) 1) := by
  obtain ⟨matrices, h⟩ := Tensor.exists_isStack shape
  obtain ⟨⟨lu, _⟩, factored, factors, _, rfl⟩ := factor_ensures h
  refine ⟨lu, _, factored, counted_map h _, ?_, ?_⟩
  · intro pos
    obtain ⟨out, determined, _, _, numbers⟩ := determinant_ensures h (Nat.ne_of_gt pos)
    exact ⟨out, determined, numbers ▸ paired_map factors⟩
  · rintro rfl few
    exact determinant_ensures_replicate shape few

/-- Three matrices without entries. -/
def threeEmpty : Tensor Float :=
  ⟨⟨[3, 0, 0], [1, 1, 1], 0, rfl, rfl⟩, #[], 0, by decide⟩

theorem factor_countsPivots_twoMatrices :
    (∃ lu pivots out, twoMatrices.shape = [2] ++ [2, 2] ∧
      Gives (factor twoMatrices) (.ok (lu, pivots)) ∧ pivots.length = 2 ∧
      (∀ entry ∈ pivots, entry.1 = 2) ∧ Gives (determinant twoMatrices) (.ok out) ∧
      Paired lu pivots out.cells.toList) ∧
    ∃ lu out, threeEmpty.shape = [3] ++ [0, 0] ∧ product [3] < Word.room ∧
      Gives (factor threeEmpty) (.ok (lu, [])) ∧ Gives (determinant threeEmpty) (.ok out) ∧
      out.cells.toList = [1, 1, 1] := by
  constructor
  · have shape : twoMatrices.shape = [2] ++ [2, 2] := rfl
    obtain ⟨lu, pivots, factored, counted, paired, _⟩ := factor_countsPivots shape
    obtain ⟨out, determined, along⟩ := paired (by decide)
    exact ⟨lu, pivots, out, shape, factored, counted.length_eq (by decide),
      counted.dimension_eq, determined, along⟩
  · have shape : threeEmpty.shape = [3] ++ [0, 0] := rfl
    have few : product [3] < Word.room := by decide
    obtain ⟨lu, pivots, factored, counted, _, ones⟩ := factor_countsPivots shape
    obtain ⟨out, determined, all⟩ := ones rfl few
    exact ⟨lu, out, shape, few, counted.eq_nil rfl ▸ factored, determined, all⟩

/-- Three determinants, but no pivots to go with them. -/
theorem factor_uncounted_threeEmpty :
    threeEmpty.shape = [3] ++ [0, 0] ∧
    (∃ out, Gives (determinant threeEmpty) (.ok out) ∧ out.cells.toList = [1, 1, 1]) ∧
    ¬ ∃ lu pivots, Gives (factor threeEmpty) (.ok (lu, pivots)) ∧
      pivots.length = product [3] ∧ ∀ entry ∈ pivots, entry.1 = 0 := by
  have shape : threeEmpty.shape = [3] ++ [0, 0] := rfl
  refine ⟨shape, determinant_ensures_replicate shape (by decide), ?_⟩
  rintro ⟨_, _, factored, count, _⟩
  obtain ⟨matrices, h⟩ := Tensor.exists_isStack shape
  obtain ⟨⟨_, _⟩, gives, _, _, rfl⟩ := factor_ensures h
  cases factored.unique gives
  rw [(counted_map h _).eq_nil rfl] at count
  cases count

end RowMajor.Stack

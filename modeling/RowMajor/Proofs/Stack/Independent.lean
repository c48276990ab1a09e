import Mathlib
import RowMajor.Proofs.Stack.Separate

/-! Singular values of stacks, matrix by matrix, and all operations on stacks together. -/
namespace RowMajor.Stack
open Layout (InBounds rowOffset)
open InPlace (Returns)
open Tensor (CanMake)
variable {n m : Nat} {stack : List Nat}

section Singular
variable {α σ : Type} [Scalar α]

/-- On a copy `c` the operation ends like this and writes what `written` says, whatever the
targets. -/
def SingularEnds (source : Source σ α) (state : σ) (limits : PowerLimits α) (n m : Nat)
    (c : Tensor α) (result : Except Error Unit)
    (written : Tensor α → Tensor α → Tensor α → Prop) : Prop :=
  ∀ u s v, IsTarget [n, min n m] u → IsTarget [min n m] s → IsTarget [m, min n m] v →
    ∃ u' s' v', (Linear.singularInto source state limits c).Settles (u, s, v) result (u', s', v') ∧
      written u' s' v'

theorem SingularEnds.imp {source : Source σ α} {state : σ} {limits : PowerLimits α}
    {c : Tensor α} {result : Except Error Unit}
    {written written' : Tensor α → Tensor α → Tensor α → Prop}
    (h : SingularEnds source state limits n m c result written)
    (follows : ∀ u s v, written u s v → written' u s v) :
    SingularEnds source state limits n m c result written' := by
  intro u s v hu hs hv
  obtain ⟨u', s', v', settles, holds⟩ := h u s v hu hs hv
  exact ⟨u', s', v', settles, follows _ _ _ holds⟩

variable (source : Source σ α) (state : σ) (limits : PowerLimits α)

theorem singularEnds {c : Tensor α} {x : Mat α n m} (here : c.Holds x) (rows : n < Word.room)
    (cols : m < Word.room) :
    SingularEnds source state limits n m c
      ((Linear.decomposition source limits state x).map fun _ => ()) fun u s v =>
        ∀ f, Linear.decomposition source limits state x = .ok f →
          u.Holds f.u ∧ s.HoldsVector f.s ∧ v.Holds f.v ∧
            u.Addressable ∧ s.Addressable ∧ v.Addressable := by
  intro u s v hu hs hv
  obtain ⟨u', s', v', settles, written, smallU, smallS, smallV⟩ :=
    Linear.singularInto_settles source limits state here hu.shape_eq hs.shape_eq hv.shape_eq rows
      cols
  refine ⟨u', s', v', settles, fun f plan => ?_⟩
  obtain ⟨holdsU, holdsS, holdsV⟩ := written f plan
  exact ⟨holdsU, holdsS, holdsV, smallU hu.addressable, smallS hs.addressable,
    smallV hv.addressable⟩

theorem exists_plan_of_empty (empty : min n m = 0) (x : Mat α n m) :
    ∃ f, Linear.decomposition source limits state x = .ok f := by
  rw [Linear.decomposition, Linear.decompositionResult, Deflation.failed_run_of_empty empty]
  exact ⟨_, rfl⟩

variable {a : Tensor α} {matrices : List (Mat α n m)}

/-- The factors planned for the stack are those planned for its matrices. -/
theorem exists_plan_at (h : a.IsStack stack matrices) {fs : List (SingularFactors α n m (min n m))}
    (plan : matrices.mapM (Linear.decomposition source limits state) = .ok fs) {b : List Nat}
    (hb : InBounds stack b) {x : Mat α n m} (same : AgreesAt matrices (rowOffset stack b) x) :
    ∃ f, Linear.decomposition source limits state x = .ok f ∧
      AgreesAt fs (rowOffset stack b) f := by
  have all := mapM_eq_ok plan
  by_cases none : Layout.product [n, m] = 0
  · have empty : min n m = 0 := by
      simp only [Layout.product, Nat.mul_one, Nat.mul_eq_zero] at none
      omega
    obtain ⟨f, here⟩ := exists_plan_of_empty source state limits empty x
    refine ⟨f, here, fun other found => ?_⟩
    obtain ⟨hk, _⟩ := List.getElem?_eq_some_iff.mp found
    rw [← all.length_eq, h.length_eq, pieceCount, if_pos none] at hk
    exact absurd hk (Nat.not_lt_zero _)
  · obtain ⟨hk, here⟩ := List.getElem?_eq_some_iff.mp (h.getElem?_eq none hb same)
    have hk' := all.length_eq ▸ hk
    refine ⟨fs[rowOffset stack b], ?_, fun other found => ?_⟩
    · have planned := all.get hk hk'
      rwa [List.get_eq_getElem, List.get_eq_getElem, here] at planned
    · rw [List.getElem?_eq_getElem hk'] at found
      exact (Option.some.inj found).symm

/-- The operation on the matrix at `b` ends as planned for it. -/
theorem exists_ends (h : a.IsStack stack matrices) (ha : a.Addressable) {b : List Nat}
    (hb : InBounds stack b) (sides : n < Word.room ∧ m < Word.room) {x : Mat α n m}
    (here : matrices[rowOffset stack b]? = some x) :
    ∃ c, a.IsCopy b c ∧ SingularEnds source state limits n m c
      ((Linear.decomposition source limits state x).map fun _ => ()) fun _ _ _ => True := by
  obtain ⟨c, y, copy, holds, same⟩ := h.exists_copy ha hb
  obtain rfl : x = y := same x here
  have ends := singularEnds source state limits holds sides.1 sides.2
  exact ⟨c, copy, ends.imp fun _ _ _ _ => trivial⟩

end Singular

theorem sides_lt {b : List Nat} (hb : InBounds stack b)
    (short : min n m = 0 → n < Word.room ∧ m < Word.room)
    (leftRoom : CanMake (stack ++ [n, min n m])) (rightRoom : CanMake (stack ++ [m, min n m])) :
    n < Word.room ∧ m < Word.room := by
  have some : Layout.product stack ≠ 0 :=
    Nat.ne_of_gt (Nat.lt_of_le_of_lt (Nat.zero_le _) (Layout.rowOffset_lt hb))
  by_cases none : min n m = 0
  · exact short none
  · exact ⟨leftRoom.rows_lt some none, rightRoom.rows_lt some none⟩

theorem min_le_mul (n m : Nat) : min n m ≤ n * m := by
  rcases Nat.eq_zero_or_pos m with rfl | pos
  · rw [Nat.min_zero, Nat.mul_zero]
  · exact Nat.le_trans (Nat.min_le_left n m) (Nat.le_mul_of_pos_right n pos)

/-- Memory that has room for a stack has room for stacks of smaller matrices. -/
theorem canMake_of_le {α : Type} {a : Tensor α} (h : a.shape = stack ++ [n, m])
    (room : a.size < Word.room) {layout : Layout} {last : List Nat}
    (shape : layout.shape = stack ++ last) (smaller : Layout.product last ≤ n * m) :
    CanMake (stack ++ last) := by
  rw [← shape]
  refine Tensor.canMake_of_layout (Nat.lt_of_le_of_lt ?_ room)
  rw [Tensor.size, layout.size_eq_product, a.size_eq_product, h, shape, Layout.product_append,
    Layout.product_append]
  exact Nat.mul_le_mul_left _ (by simpa [Layout.product] using smaller)

theorem canMake_factors {α : Type} {a : Tensor α} (h : a.shape = stack ++ [n, m])
    (room : a.size < Word.room) {left weights right : Layout}
    (leftShape : left.shape = stack ++ [n, min n m])
    (weightShape : weights.shape = stack ++ [min n m])
    (rightShape : right.shape = stack ++ [m, min n m]) :
    CanMake (stack ++ [n, min n m]) ∧ CanMake (stack ++ [min n m]) ∧
      CanMake (stack ++ [m, min n m]) := by
  refine ⟨canMake_of_le h room leftShape ?_, canMake_of_le h room weightShape ?_,
    canMake_of_le h room rightShape ?_⟩
  · simpa [Layout.product] using Nat.mul_le_mul_left n (Nat.min_le_right n m)
  · simpa [Layout.product] using min_le_mul n m
  · simpa [Layout.product, Nat.mul_comm m] using Nat.mul_le_mul_right m (Nat.min_le_left n m)

section Singular
variable {α : Type} [Scalar α] {a : Tensor α}

/-- What the singular values of a stack come to, if the three results have layouts. All
matrices have their factors, or the first that has none decides. Every matrix starts from the
same state of the source, as in `singular` from the generator of one seed. Only for matrices
without entries is it asked that memory has room for vectors of either side. -/
def SeparatesSingular (a : Tensor α) (stack : List Nat) (n m : Nat) : Prop :=
  ∀ {σ : Type} (source : Source σ α) (state : σ) (limits : PowerLimits α)
    (left weights right : Layout),
    left.shape = stack ++ [n, min n m] → weights.shape = stack ++ [min n m] →
    right.shape = stack ++ [m, min n m] → (min n m = 0 → n < Word.room ∧ m < Word.room) →
    (∃ out, Gives (singularWith source state limits a) (.ok out) ∧
      ForEachMatrix a stack fun b c =>
        SingularEnds source state limits n m c (.ok ()) fun u s v =>
          out.u.IsPart b u ∧ out.s.IsPart b s ∧ out.v.IsPart b v) ∨
    ∃ refusal b, Gives (singularWith source state limits a) (.error refusal) ∧
      InBounds stack b ∧
      (∃ c, a.IsCopy b c ∧
        SingularEnds source state limits n m c (.error refusal) fun _ _ _ => True) ∧
      ∀ b', InBounds stack b' → b' < b → ∃ c, a.IsCopy b' c ∧
        SingularEnds source state limits n m c (.ok ()) fun _ _ _ => True

theorem separatesSingular {matrices : List (Mat α n m)} (h : a.IsStack stack matrices)
    (ha : a.Addressable) (room : a.size < Word.room) : SeparatesSingular a stack n m := by
  intro σ source state limits left weights right leftShape weightShape rightShape short
  obtain ⟨leftRoom, weightRoom, rightRoom⟩ :=
    canMake_factors h.shape_eq room leftShape weightShape rightShape
  have nonempty : matrices ≠ [] → n < Word.room ∧ m < Word.room := by
    intro some
    obtain ⟨b, hb, _⟩ := h.exists_index (List.length_pos_of_ne_nil some)
    exact sides_lt hb short leftRoom rightRoom
  have realized : Realizes _ (singularWith source state limits a)
      (matrices.mapM (Linear.decomposition source limits state)) :=
    singular_realizes h nonempty leftRoom weightRoom rightRoom
  cases plan : matrices.mapM (Linear.decomposition source limits state) with
  | error refusal =>
      rw [plan] at realized
      obtain ⟨before, x, after, rfl, fails, succeed⟩ := mapM_eq_error plan
      have middle : before.length < (before ++ x :: after).length := by simp
      obtain ⟨b, hb, place⟩ := h.exists_index middle
      refine .inr ⟨refusal, b, realized, hb, ?_, fun b' hb' earlier => ?_⟩
      · have here : (before ++ x :: after)[rowOffset stack b]? = some x := by
          rw [place]
          simp
        obtain ⟨c, copy, ends⟩ :=
          exists_ends source state limits h ha hb (sides_lt hb short leftRoom rightRoom) here
        rw [fails] at ends
        exact ⟨c, copy, ends⟩
      · have less : rowOffset stack b' < before.length :=
          place ▸ (Layout.rowOffset_lt_rowOffset hb' hb).mpr earlier
        have here : (before ++ x :: after)[rowOffset stack b']? =
            some before[rowOffset stack b'] := by
          rw [List.getElem?_append_left less, List.getElem?_eq_getElem less]
        obtain ⟨c, copy, ends⟩ :=
          exists_ends source state limits h ha hb' (sides_lt hb' short leftRoom rightRoom) here
        obtain ⟨f, succeeds⟩ := succeed _ (List.getElem_mem less)
        rw [succeeds] at ends
        exact ⟨c, copy, ends⟩
  | ok fs =>
      rw [plan] at realized
      obtain ⟨out, gives, ⟨madeU, madeS, madeV⟩, smallU, smallS, smallV⟩ := realized
      refine .inl ⟨out, gives, forEachMatrix h ha ?_⟩
      intro b c x hb copy here same
      have sides := sides_lt hb short leftRoom rightRoom
      obtain ⟨f, planned, there⟩ := exists_plan_at source state limits h plan hb same
      have ends := singularEnds source state limits here sides.1 sides.2
      rw [planned] at ends
      refine ends.imp fun u s v written => ?_
      obtain ⟨holdsU, holdsS, holdsV, fitU, fitS, fitV⟩ := written f rfl
      exact ⟨madeU.isPart smallU fitU hb holdsU (there.map _),
        madeS.isPart smallS fitS hb holdsS (there.map _),
        madeV.isPart smallV fitV hb holdsV (there.map _)⟩

end Singular

/-- Matrices that are not square are refused by every operation that wants square ones. -/
structure RefusesUneven (a : Tensor Float) (rows cols : Nat) : Prop where
  factor : Gives (factor a) (.error (.nonSquare rows cols))
  factorWithPivots : Gives (factorWithPivots a) (.error (.nonSquare rows cols))
  determinant : Gives (determinant a) (.error (.nonSquare rows cols))
  inverse : Gives (inverse a) (.error (.nonSquare rows cols))
  cholesky : ∀ epsilon, Gives (cholesky a epsilon) (.error (.nonSquare rows cols))
  orthogonal : Gives (orthogonal a) (.error (.nonSquare rows cols))

theorem refusesUneven {a : Tensor Float} (h : a.shape = stack ++ [n, m]) (uneven : n ≠ m) :
    RefusesUneven a n m := by
  have checked := squareDim_refuses stack uneven
  rw [← h] at checked
  have factored : Gives (factor a) (.error (.nonSquare n m)) :=
    .bind_error (.discard (by rw [checked]; rfl))
  exact
    { factor := factored
      factorWithPivots := .bind_error factored
      determinant := .bind_error (.lift checked)
      inverse := .bind_error factored
      cholesky := fun _ => .bind_error (.discard (by rw [checked]; rfl))
      orthogonal := .bind_error (.discard (by rw [checked]; rfl)) }

/-- What the operations on a stack of square matrices give at each multi-index. Copies are
read, and targets of any contents written, by the operations on one matrix. -/
structure SeparatesSquares (a : Tensor Float) (stack : List Nat) (n : Nat) : Prop where
  factor : ∃ lu pivots outer, Gives (factor a) (.ok (lu, pivots)) ∧
    Layout.ofShape stack = .ok outer ∧
    ForEachMatrix a stack fun b c => ∃ (q : Pivots n) (lu' : Tensor Float),
      Returns Linear.factorInPlace c ⟨n, q⟩ lu' ∧ lu.IsPart b lu' ∧
      (0 < n → ∃ k, outer.offset b = .ok k ∧ pivots[k]? = some ⟨n, q⟩)
  factorWithPivots : ∃ out, Gives (factorWithPivots a) (.ok out) ∧
    ForEachMatrix a stack fun b c => ∃ (q : Pivots n) (lu : Tensor Float),
      Returns Linear.factorInPlace c ⟨n, q⟩ lu ∧
      (∀ p, IsTarget [n, n] p → ∃ p', Returns (Linear.permutationInto q) p () p' ∧
        out.permutation.IsPart b p') ∧
      ∀ l u, IsTarget [n, n] l → IsTarget [n, n] u →
        ∃ l' u', Returns (Linear.splitInto lu) (l, u) () (l', u') ∧
          out.lower.IsPart b l' ∧ out.upper.IsPart b u'
  determinant : (n = 0 → Layout.product stack < Word.room) →
    ∃ out, Gives (determinant a) (.ok out) ∧ out.shape = numbersShape stack ∧
    ForEachMatrix a stack fun b c => ∃ (q : Pivots n) (lu : Tensor Float) (x : Float),
      Returns Linear.factorInPlace c ⟨n, q⟩ lu ∧ Linear.determinant lu q = .ok x ∧
      out.read (if stack.isEmpty then [0] else b) = .ok x
  inverse : ∃ out, Gives (inverse a) (.ok out) ∧
    ForEachMatrix a stack fun b c => ∃ (q : Pivots n) (lu : Tensor Float),
      Returns Linear.factorInPlace c ⟨n, q⟩ lu ∧
      ∀ x, IsTarget [n, n] x → ∃ x', Returns (Linear.inverseInto lu q) x () x' ∧ out.IsPart b x'
  cholesky_refuses : ∀ epsilon, SomewhereAsymmetric a stack n epsilon →
    Gives (cholesky a epsilon) (.error (.notSymmetric epsilon))
  cholesky : ∀ epsilon, ¬ SomewhereAsymmetric a stack n epsilon →
    ∃ out, Gives (cholesky a epsilon) (.ok out) ∧
    ForEachMatrix a stack fun b c => ∀ l, IsTarget [n, n] l →
      ∃ l', Returns (Linear.choleskyInto c) l () l' ∧ out.IsPart b l'
  orthogonal : ∃ out, Gives (orthogonal a) (.ok out) ∧
    ForEachMatrix a stack fun b c => ∀ q r, IsTarget [n, n] q → IsTarget [n, n] r →
      ∃ q' r', Returns (Linear.orthogonalInto c) (q, r) () (q', r') ∧
        out.1.IsPart b q' ∧ out.2.IsPart b r'

theorem separatesSquares {a : Tensor Float} {matrices : List (Mat Float n n)}
    (h : a.IsStack stack matrices) (ha : a.Addressable) (room : a.size < Word.room) :
    SeparatesSquares a stack n :=
  have same : CanMake a.shape := Tensor.canMake_of_layout room
  { factor := factor_separates h ha
    factorWithPivots := factorWithPivots_separates h ha same
    determinant := fun few =>
      determinant_separates h ha fun none => canMake_numbers h.shape_eq (few none)
    inverse := inverse_separates h ha same
    cholesky_refuses := fun epsilon => (cholesky_separates h ha epsilon).1
    cholesky := fun epsilon even => (cholesky_separates h ha epsilon).2 even same
    orthogonal := orthogonal_separates h ha same }

/-- An operation on a stack is the operation on one matrix, for every matrix by itself,
wherever the stack lies in its store. -/
theorem operations_separate {a : Tensor Float} (shape : a.shape = stack ++ [n, m])
    (bounded : a.store.size < Word.bound) (room : a.size < Word.room) :
    (n ≠ m → RefusesUneven a n m) ∧ (n = m → SeparatesSquares a stack n) ∧
      SeparatesSingular a stack n m := by
  have ha := Tensor.addressable_of_store bounded
  obtain ⟨matrices, h⟩ := Tensor.exists_isStack shape
  refine ⟨refusesUneven shape, ?_, separatesSingular h ha room⟩
  rintro rfl
  exact separatesSquares h ha room

/-- Two symmetric matrices in the middle of a longer store. -/
def twoMatrices : Tensor Float :=
  ⟨⟨[2, 2, 2], [4, 2, 1], 8, rfl, rfl⟩, #[9, 4, 2, 2, 3, 1, 0, 0, 5, 9], 1, by decide⟩

/-- The same elements as one column after the other. -/
def twoColumns : Tensor Float :=
  ⟨⟨[2, 4, 1], [4, 1, 1], 8, rfl, rfl⟩, #[9, 4, 2, 2, 3, 1, 0, 0, 5, 9], 1, by decide⟩

theorem twoMatrices_even : ¬ SomewhereAsymmetric twoMatrices [2] 2 0 := by
  rintro ⟨_, i, j, x, y, _ | ⟨below, _ | _⟩, less, small, readX, readY, far⟩
  obtain rfl : j = 0 := by omega
  obtain rfl : i = 1 := by omega
  rename_i k
  have sides : k = 0 ∨ k = 1 := by omega
  rcases sides with rfl | rfl
  · obtain rfl := Except.ok.inj (readX.symm.trans (rfl : twoMatrices.read [0, 1, 0] = .ok 2))
    obtain rfl := Except.ok.inj (readY.symm.trans (rfl : twoMatrices.read [0, 0, 1] = .ok 2))
    revert far
    decide +kernel
  · obtain rfl := Except.ok.inj (readX.symm.trans (rfl : twoMatrices.read [1, 1, 0] = .ok 0))
    obtain rfl := Except.ok.inj (readY.symm.trans (rfl : twoMatrices.read [1, 0, 1] = .ok 0))
    revert far
    decide +kernel

theorem operations_separate_twoMatrices :
    twoMatrices.store.size < Word.bound ∧ twoMatrices.size < Word.room ∧
    ¬ SomewhereAsymmetric twoMatrices [2] 2 0 ∧ SeparatesSquares twoMatrices [2] 2 ∧
    (∃ left weights right : Layout,
      left.shape = [2, 4, 1] ∧ weights.shape = [2, 1] ∧ right.shape = [2, 1, 1]) ∧
    RefusesUneven twoColumns 4 1 ∧ SeparatesSingular twoColumns [2] 4 1 :=
  have bounded : twoMatrices.store.size < Word.bound := by decide
  have room : twoMatrices.size < Word.room := by decide
  have square := operations_separate (a := twoMatrices) (n := 2) (m := 2) rfl bounded room
  have uneven := operations_separate (a := twoColumns) (n := 4) (m := 1) rfl bounded room
  ⟨bounded, room, twoMatrices_even, square.2.1 rfl,
    ⟨⟨_, [4, 1, 1], 8, rfl, rfl⟩, ⟨_, [1, 1], 2, rfl, rfl⟩, ⟨_, [1, 1, 1], 2, rfl, rfl⟩,
      rfl, rfl, rfl⟩,
    uneven.1 (by decide), uneven.2.2⟩

end RowMajor.Stack

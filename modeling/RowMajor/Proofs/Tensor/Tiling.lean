import Mathlib
import RowMajor.Proofs.Tensor.Sequence

/-! Tensors tiled by their items. The items lie side by side in the store, the chunks are
the same pieces, and a chunk that is written to and put back changes one place. -/
namespace RowMajor.Tensor
open Layout (InBounds rowOffset product)
variable {α : Type}

/-- Place `p` of the store holds an element of the tensor. -/
def Occupies (t : Tensor α) (p : Nat) : Prop :=
  t.start ≤ p ∧ p < t.start + t.layout.size

/-- The items and the chunks of `t` over the dimensions `outer` that are left out. -/
structure IsTiling (t : Tensor α) (outer : Layout) (items chunks : List (Tensor α)) : Prop where
  shared : ∀ item ∈ items, item.store = t.store
  disjoint : items.Pairwise fun a b => ∀ p, ¬ (a.Occupies p ∧ b.Occupies p)
  whole : (items.map fun item => item.cells.toList).flatten = t.cells.toList
  element : ∀ (k : Nat) (item : Tensor α), items[k]? = some item →
    outer.offset (outer.index k) = .ok k ∧ t.IsPart (outer.index k) item
  same : chunks.map (fun chunk => (chunk.shape, chunk.cells.toList)) =
    items.map fun item => (item.shape, item.cells.toList)
  write : ∀ (k : Nat) (chunk : Tensor α) (j : List Nat) (value : α), chunks[k]? = some chunk →
    InBounds chunk.shape j → ∃ p chunk', t.place (outer.index k ++ j) = .ok p ∧
      chunk.write j value = .ok chunk' ∧
      t.write (outer.index k ++ j) value = .ok (t.withChunk k chunk') ∧
      t.withChunks (chunks.set k chunk') = t.withChunk k chunk' ∧
      ∀ q, (t.withChunk k chunk').store[q]? = if q = p then some value else t.store[q]?

section Along
variable {t : Tensor α} {split : Split t.layout} {outer : Layout} {first last : List Nat}

theorem disjoint_items (split : Split t.layout) :
    ((List.finRange split.count).map split.item).Pairwise
      fun a b => ∀ p, ¬ (a.Occupies p ∧ b.Occupies p) := by
  rw [List.pairwise_map]
  refine List.Pairwise.imp ?_ (List.pairwise_lt_finRange split.count)
  rintro a b before p ⟨⟨_, below⟩, ⟨above, _⟩⟩
  have step : a * split.inner.size + split.inner.size ≤ b * split.inner.size :=
    Nat.succ_mul a _ ▸ Nat.mul_le_mul_right _ before
  simp only [Split.item] at below above
  omega

theorem map_toList_items (split : Split t.layout) :
    ((List.finRange split.count).map split.item).map (fun item => item.cells.toList) =
      (List.range split.count).map (slice split.inner.size t.cells.toList) := by
  rw [List.map_map, ← List.map_coe_finRange_eq_range, List.map_map]
  exact List.map_congr_left fun k _ => toList_cells_item split k

theorem flatten_items (h : split.Along first last) :
    (((List.finRange split.count).map split.item).map fun item => item.cells.toList).flatten =
      t.cells.toList := by
  rw [map_toList_items, List.range_eq_range', flatten_slices, Nat.zero_mul, List.drop_zero, h.total,
    List.take_of_length_le (by rw [Vector.length_toList])]

theorem getElem?_items {items : Fin split.count → Tensor α} {k : Nat} {item : Tensor α}
    (h : ((List.finRange split.count).map items)[k]? = some item) :
    ∃ number : Fin split.count, number.val = k ∧ items number = item := by
  obtain ⟨here, rfl⟩ := List.getElem?_eq_some_iff.mp h
  rw [List.length_map, List.length_finRange] at here
  exact ⟨⟨k, here⟩, rfl, by simp⟩

theorem rowOffset_item (h : split.Along first last) (made : Layout.ofShape first = .ok outer)
    (k : Fin split.count) {j : List Nat} :
    rowOffset t.shape (outer.index k ++ j) = k * split.inner.size + rowOffset last j := by
  rw [show t.shape = first ++ last from h.shape_eq,
    Layout.rowOffset_append (h.inBounds_index made k.isLt), h.rowOffset_index made k.isLt,
    h.size_inner]

/-- A chunk that differs from its item in one element changes that one of the whole. -/
theorem withChunk_put (split : Split t.layout) (k : Fin split.count) {i : Nat}
    (small : i < split.inner.size) (value : α) :
    t.withChunk k ((split.item k).copy.put i value) = t.put (k * split.inner.size + i) value := by
  have fits := split.item_fits k
  have size : ((split.item k).copy.put i value).size = split.inner.size := rfl
  have copied : (split.item k).copy.cells.toList = slice split.inner.size t.cells.toList k :=
    (toList_cells_copy _).trans (toList_cells_item split k)
  refine AgreesAround.unique (agreesAround_splice _ _ _) (agreesAround_put _ (by omega) _) ?_
  rw [toList_cells_withChunk (by rw [size]; exact fits), toList_cells_put, toList_cells_put, size,
    copied, set_slice (by rw [Vector.length_toList, Nat.succ_mul]; exact fits) small]

theorem withChunks_set (h : split.Along first last) (k : Fin split.count) {chunk : Tensor α}
    (shape : chunk.layout = split.inner) :
    t.withChunks (((List.finRange split.count).map fun k => (split.item k).copy).set k chunk) =
      t.withChunk k chunk := by
  have size : chunk.size = split.inner.size := congrArg Layout.size shape
  have pieces : (((List.finRange split.count).map fun k => (split.item k).copy).set k chunk).map
      (fun chunk => chunk.cells.toList) =
        ((List.range split.count).map (slice split.inner.size t.cells.toList)).set k
          chunk.cells.toList := by
    rw [List.map_set, List.map_map, ← map_toList_items, List.map_map]
    congr 1
    exact List.map_congr_left fun k _ => toList_cells_copy (split.item k)
  have full : split.count * split.inner.size = t.cells.toList.length := by
    rw [Vector.length_toList, h.total]
  have filled := flatten_set_slices full k.isLt chunk.cells.toList
  have shapes : ∀ c ∈ ((List.finRange split.count).map fun k => (split.item k).copy).set k chunk,
      c.shape = last := by
    intro c mem
    rcases List.mem_or_eq_of_mem_set mem with old | rfl
    · obtain ⟨k, _, rfl⟩ := List.mem_map.mp old
      exact h.inner_eq
    · exact (congrArg Layout.shape shape).trans h.inner_eq
  refine AgreesAround.unique (agreesAround_splice _ _ _) (agreesAround_splice _ _ _) ?_
  rw [toList_cells_withChunk (by rw [size]; exact split.item_fits k), size,
    ← filled, ← pieces]
  exact (toList_cells_withChunks_of_shape h (by simp) shapes).1

theorem mem_items {item : Tensor α} (h : split.Along first last)
    (mem : item ∈ (List.finRange split.count).map split.item) :
    item.shape = last ∧ item.store = t.store := by
  obtain ⟨k, _, rfl⟩ := List.mem_map.mp mem
  exact ⟨h.inner_eq, rfl⟩

theorem isTiling_items (bounded : t.store.size < Word.bound) (h : split.Along first last)
    (made : Layout.ofShape first = .ok outer) :
    t.IsTiling outer ((List.finRange split.count).map split.item)
      ((List.finRange split.count).map fun k => (split.item k).copy) where
  shared _ mem := (mem_items h mem).2
  disjoint := disjoint_items split
  whole := flatten_items h
  element k item here := by
    obtain ⟨k, rfl, rfl⟩ := getElem?_items here
    refine ⟨?_, isPart_item (addressable_of_store bounded) h made k⟩
    have shape := Layout.shape_of_ofShape made
    rw [Layout.offset_eq (shape ▸ h.inBounds_index made k.isLt), shape,
      h.rowOffset_index made k.isLt]
  same := by
    rw [List.map_map, List.map_map]
    exact List.map_congr_left fun k _ => congrArg (Prod.mk _) (toList_cells_copy (split.item k))
  write k chunk j value here hj := by
    obtain ⟨k, rfl, rfl⟩ := getElem?_items here
    obtain rfl := h.inner_eq
    have ht := addressable_of_store bounded
    have whole : InBounds t.shape (outer.index k ++ j) :=
      (show t.shape = _ from h.shape_eq) ▸ Layout.inBounds_append (h.inBounds_index made k.isLt) hj
    have small : rowOffset split.inner.shape j < split.inner.size :=
      h.size_inner ▸ Layout.rowOffset_lt hj
    have stored := t.place_lt (t.size_eq_product ▸ Layout.rowOffset_lt whole)
    have put := withChunk_put split k small value
    rw [← rowOffset_item h made k] at put
    refine ⟨_, _, place_eq ht whole, write_eq (addressable_compact _ _) hj value, ?_, ?_, ?_⟩
    · rw [write_eq ht whole, ← put]
      rfl
    · exact withChunks_set h k rfl
    · intro q
      refine (congrArg (fun t : Tensor α => t.store[q]?) put).trans ?_
      simp only [Tensor.put, Array.getElem?_setIfInBounds, stored, if_true, eq_comm]

end Along

/-! Vectors of matrices -/

theorem flatten_map_range {β : Type} (f : Nat → β) (count length : Nat) :
    ((List.range count).map fun k => (List.range length).map fun i => f (k * length + i)).flatten =
      (List.range (count * length)).map f := by
  induction count with
  | zero => simp
  | succ count ih =>
      rw [List.range_succ, List.map_append, List.flatten_append, ih, Nat.succ_mul, List.range_add,
        List.map_append, List.map_map]
      simp [Function.comp_def]

/-- Tensors of one shape over one store are told apart by where they start. -/
theorem eq_of_map_start {as bs : List (Tensor α)} {shape : List Nat} {store : Array α}
    (ha : ∀ a ∈ as, a.shape = shape ∧ a.store = store)
    (hb : ∀ b ∈ bs, b.shape = shape ∧ b.store = store) (h : as.map start = bs.map start) :
    as = bs := by
  have length : as.length = bs.length := by simpa using congrArg List.length h
  refine List.ext_getElem length fun i hi hi' => ?_
  obtain ⟨layout, content⟩ := ha _ (List.getElem_mem hi)
  obtain ⟨layout', content'⟩ := hb _ (List.getElem_mem hi')
  have starts : (as[i]).start = (bs[i]).start := by
    have here := congrArg (·[i]?) h
    simpa [hi, hi'] using here
  have layouts := Layout.ext_shape (layout.trans layout'.symm)
  have stores := content.trans content'.symm
  generalize as[i] = a at *
  generalize bs[i] = b at *
  cases a
  cases b
  cases layouts
  cases stores
  cases starts
  rfl

theorem map_start_items {t : Tensor α} (split : Split t.layout) :
    ((List.finRange split.count).map split.item).map start =
      (List.range split.count).map fun k => t.start + k * split.inner.size := by
  rw [List.map_map, ← List.map_coe_finRange_eq_range, List.map_map]
  rfl

theorem mapM_ok {β γ : Type} {f : β → Attempt (Except Fault) γ} {P : β → γ → Prop} {xs : List β}
    (h : ∀ x ∈ xs, ∃ y, (f x).run = .ok (.ok y) ∧ P x y) :
    ∃ ys, (xs.mapM f).run = .ok (.ok ys) ∧ List.Forall₂ P xs ys := by
  induction xs with
  | nil => exact ⟨[], rfl, .nil⟩
  | cons x xs ih =>
      obtain ⟨y, here, holds⟩ := h x List.mem_cons_self
      obtain ⟨ys, later, all⟩ := ih fun x mem => h x (List.mem_cons_of_mem _ mem)
      refine ⟨y :: ys, ?_, .cons holds all⟩
      rw [List.mapM_cons, ExceptT.run_bind, here]
      change (xs.mapM f >>= fun ys => pure (y :: ys)).run = _
      rw [ExceptT.run_bind, later]
      rfl

theorem map_flatten_of_forall₂ {β γ δ : Type} {holds : γ → Prop} {f : γ → δ} {g : β → List δ}
    {xs : List β} {parts : List (List γ)}
    (h : List.Forall₂ (fun x ys => (∀ y ∈ ys, holds y) ∧ ys.map f = g x) xs parts) :
    (∀ y ∈ parts.flatten, holds y) ∧ parts.flatten.map f = (xs.map g).flatten := by
  induction h with
  | nil => exact ⟨fun y mem => absurd mem List.not_mem_nil, rfl⟩
  | cons here _ ih =>
      constructor
      · intro y mem
        rcases List.mem_append.mp mem with inside | later
        · exact here.1 y inside
        · exact ih.1 y later
      · rw [List.flatten_cons, List.map_append, here.2, ih.2, List.map_cons, List.flatten_cons]

/-- The vectors of one matrix: its rows, and none at all if they are empty. -/
theorem items_of_matrix {matrix : Tensor α} {rows cols : Nat} (h : matrix.shape = [rows, cols]) :
    ∃ vectors, (matrix.items 1).run = .ok (.ok vectors) ∧
      (∀ vector ∈ vectors, vector.shape = [cols] ∧ vector.store = matrix.store) ∧
      vectors.map start = (List.range (pieceCount [rows] [cols])).map
        fun i => matrix.start + i * product [cols] := by
  have parts : matrix.shape = [rows] ++ [cols] := h
  obtain ⟨split, along, found, _⟩ := sequences_eq parts
  refine ⟨_, found, fun _ mem => mem_items along mem, ?_⟩
  rw [map_start_items, along.count_eq, along.size_inner]

/-- The rows of all matrices start where the vectors do. -/
theorem starts_of_rows {t : Tensor α} {split split' : Split t.layout} {first : List Nat}
    {rows cols : Nat} (h : split.Along first [rows, cols])
    (h' : split'.Along (first ++ [rows]) [cols]) :
    ((List.range split.count).map fun k => (List.range (pieceCount [rows] [cols])).map
      fun i => t.start + k * split.inner.size + i * product [cols]).flatten =
        (List.range split'.count).map fun k => t.start + k * split'.inner.size := by
  have size : split.inner.size = pieceCount [rows] [cols] * product [cols] :=
    h.size_inner.trans (pieceCount_mul_product [rows] [cols]).symm
  have count : split'.count = split.count * pieceCount [rows] [cols] := by
    rw [h.count_eq, h'.count_eq, pieceCount_append]
    rfl
  rw [count, h'.size_inner, size, ← flatten_map_range]
  refine congrArg List.flatten (List.map_congr_left fun k _ => List.map_congr_left fun i _ => ?_)
  rw [Nat.add_mul, Nat.mul_assoc, Nat.add_assoc]

/-- The vectors of the matrices, one matrix after the other, are the vectors. -/
theorem items_of_items {t : Tensor α} {first : List Nat} {rows cols : Nat}
    (h : t.shape = first ++ [rows, cols]) :
    ∃ (matrices vectors : List (Tensor α)) (perMatrix : List (List (Tensor α))),
      (t.items 2).run = .ok (.ok matrices) ∧ (t.items 1).run = .ok (.ok vectors) ∧
      (matrices.mapM (items · 1)).run = .ok (.ok perMatrix) ∧ perMatrix.flatten = vectors := by
  have h' : t.shape = (first ++ [rows]) ++ [cols] := by rw [h, List.append_assoc]; rfl
  obtain ⟨split, along, matrices, _⟩ := sequences_eq h
  obtain ⟨split', along', vectors, _⟩ := sequences_eq h'
  have each : ∀ matrix ∈ (List.finRange split.count).map split.item,
      ∃ vectors, (matrix.items 1).run = .ok (.ok vectors) ∧
        (∀ vector ∈ vectors, vector.shape = [cols] ∧ vector.store = t.store) ∧
        vectors.map start = (List.range (pieceCount [rows] [cols])).map
          fun i => matrix.start + i * product [cols] := by
    intro matrix mem
    obtain ⟨shape, store⟩ := mem_items along mem
    exact store ▸ items_of_matrix shape
  obtain ⟨perMatrix, run, all⟩ := mapM_ok each
  obtain ⟨members, starts⟩ := map_flatten_of_forall₂ all
  refine ⟨_, _, perMatrix, matrices, vectors, run,
    eq_of_map_start members (fun _ mem => mem_items along' mem) ?_⟩
  have grouped := congrArg (List.map fun s => (List.range (pieceCount [rows] [cols])).map
    fun i => s + i * product [cols]) (map_start_items split)
  rw [List.map_map] at grouped
  rw [starts, map_start_items, ← starts_of_rows along along']
  exact congrArg List.flatten (grouped.trans List.map_map)

/-- Items and chunks of any number of trailing dimensions tile a tensor, wherever it lies in
its store. More dimensions than there are is a refusal. -/
theorem items_isTiling {t : Tensor α} (bounded : t.store.size < Word.bound) :
    (∀ keep, t.rank < keep →
      (t.items keep).run = .ok (.error (.rankMismatch t.rank keep)) ∧
      (t.chunks keep).run = .ok (.error (.rankMismatch t.rank keep))) ∧
    (∀ keep ≤ t.rank, ∃ (outer : Layout) (items chunks : List (Tensor α)),
      Layout.ofShape (t.shape.take (t.rank - keep)) = .ok outer ∧
      (t.items keep).run = .ok (.ok items) ∧ (t.chunks keep).run = .ok (.ok chunks) ∧
      t.IsTiling outer items chunks) ∧
    (2 ≤ t.rank → ∃ (matrices vectors : List (Tensor α)) (perMatrix : List (List (Tensor α))),
      (t.items 2).run = .ok (.ok matrices) ∧ (t.items 1).run = .ok (.ok vectors) ∧
      (matrices.mapM (items · 1)).run = .ok (.ok perMatrix) ∧ perMatrix.flatten = vectors) := by
  refine ⟨fun keep more => ⟨items_refuse more, chunks_refuse more⟩, fun keep most => ?_,
    fun two => ?_⟩
  · have parts : t.shape = t.shape.take (t.rank - keep) ++ t.shape.drop (t.rank - keep) :=
      (List.take_append_drop ..).symm
    have kept : (t.shape.drop (t.rank - keep)).length = keep := by
      rw [List.length_drop]
      exact Nat.sub_sub_self most
    obtain ⟨outer, made⟩ := (Layout.exists_ofShape_append parts).1
    obtain ⟨split, along, items, chunks⟩ := sequences_eq parts
    rw [kept] at items chunks
    exact ⟨outer, _, _, made, items, chunks, isTiling_items bounded along made⟩
  · have kept : (t.shape.drop (t.rank - 2)).length = 2 := by
      rw [List.length_drop]
      exact Nat.sub_sub_self two
    obtain ⟨rows, cols, last⟩ := List.length_eq_two.mp kept
    exact items_of_items (last ▸ (List.take_append_drop ..).symm)

/-- Three dimensions in the middle of a longer store. -/
def amidOthers : Tensor Nat :=
  ⟨Layout.unequalSizes, #[9, 9, 0, 1, 2, 3, 4, 5, 6, 7, 8, 9, 10, 11, 9], 2, by decide⟩

theorem items_isTiling_amidOthers :
    amidOthers.store.size < Word.bound ∧
    (∀ keep, 3 < keep →
      (amidOthers.items keep).run = .ok (.error (.rankMismatch 3 keep)) ∧
      (amidOthers.chunks keep).run = .ok (.error (.rankMismatch 3 keep))) ∧
    (∀ keep ≤ 3, ∃ (outer : Layout) (items chunks : List (Tensor Nat)),
      Layout.ofShape ([2, 3, 2].take (3 - keep)) = .ok outer ∧
      (amidOthers.items keep).run = .ok (.ok items) ∧
      (amidOthers.chunks keep).run = .ok (.ok chunks) ∧
      amidOthers.IsTiling outer items chunks) ∧
    (∃ (matrices vectors : List (Tensor Nat)) (perMatrix : List (List (Tensor Nat))),
      (amidOthers.items 2).run = .ok (.ok matrices) ∧
      (amidOthers.items 1).run = .ok (.ok vectors) ∧
      (matrices.mapM (items · 1)).run = .ok (.ok perMatrix) ∧ perMatrix.flatten = vectors) :=
  have bounded : amidOthers.store.size < Word.bound := by decide
  have tiled := items_isTiling bounded
  ⟨bounded, tiled.1, tiled.2.1, tiled.2.2 (by decide)⟩

end RowMajor.Tensor

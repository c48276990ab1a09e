import Mathlib
import RowMajor.Proofs.Structure.Content
import RowMajor.Proofs.Tensor.Calls

/-! Passing over the elements. An iteration over a structure yields the pairs of multi-indices
and elements that passes hand to their functions, and a function that takes its results from
an iteration makes a tensor of the same contents. -/
namespace RowMajor
open Layout (InBounds product)
variable {α β σ : Type}

namespace Structure
variable {s : Structure α}

/-- Every multi-index with the element there, in order. -/
def pairs (s : Structure α) : List (List Nat × α) :=
  s.layout.multiIndices.zip s.elements

theorem length_pairs (s : Structure α) : s.pairs.length = s.layout.size := by
  rw [pairs, List.length_zip, Layout.length_multiIndices, length_elements, Nat.min_self]

theorem indices_pairs (s : Structure α) : s.pairs.map Prod.fst = s.layout.multiIndices :=
  List.map_fst_zip (by rw [Layout.length_multiIndices, length_elements])

theorem elements_pairs (s : Structure α) : s.pairs.map Prod.snd = s.elements :=
  List.map_snd_zip (by rw [Layout.length_multiIndices, length_elements])

theorem read_pairs (h : s.Bounded) {pair : List Nat × α} (mem : pair ∈ s.pairs) :
    s.read pair.1 = .ok pair.2 := by
  obtain ⟨position, here⟩ := List.mem_iff_getElem?.mp mem
  obtain ⟨index, element⟩ := List.getElem?_zip_eq_some.mp here
  obtain ⟨_, same⟩ := Layout.multiIndices_found index
  rw [← same]
  exact read_index h element

theorem pairs_stored (t : Tensor α) : (stored t).pairs = t.entries.toList := by
  rw [Tensor.entries, Vector.toList_zip, toList_indices]
  rfl

/-! Iterating -/

theorem mapM_read {entries : List (List Nat × α)}
    (reads : ∀ pair ∈ entries, s.read pair.1 = .ok pair.2) :
    ((entries.map Prod.fst).mapM fun index => do return (index, ← s.read index)) =
      Except.ok entries := by
  induction entries with
  | nil => rfl
  | cons pair entries ih =>
      have here := reads pair List.mem_cons_self
      have later := ih fun other mem => reads other (List.mem_cons_of_mem _ mem)
      rw [List.map_cons, List.mapM_cons, here, later]
      rfl

/-- Steps taken together yield the next pairs there are. -/
theorem entriesFrom_eq (h : s.Bounded) {position count : Nat} (before : position ≤ s.layout.size)
    (room : min count (s.layout.size - position) < Word.room) :
    s.entriesFrom count ⟨s.layout, position⟩ =
      .ok ((s.pairs.drop position).take count, (Cursor.take count ⟨s.layout, position⟩).2) := by
  have walk := Cursor.yields_from s.layout (Nat.add_sub_of_le before)
  have rest : (List.range' position (s.layout.size - position)).map s.layout.index =
      s.layout.multiIndices.drop position := by
    rw [Layout.multiIndices, List.range_eq_range', ← List.map_drop, List.drop_range']
    simp
  rw [rest] at walk
  have seen : (Cursor.take count ⟨s.layout, position⟩).1 =
      ((s.pairs.drop position).take count).map Prod.fst := by
    rw [(walk.take count).1, List.map_take, List.map_drop, indices_pairs]
  have reads : ∀ pair ∈ (s.pairs.drop position).take count, s.read pair.1 = .ok pair.2 :=
    fun pair mem => read_pairs h (List.mem_of_mem_drop (List.mem_of_mem_take mem))
  have collected : Cursor.collect count ⟨s.layout, position⟩ =
      .ok (Cursor.take count ⟨s.layout, position⟩) := by
    rw [Cursor.collect, Cursor.remaining, Word.requireRoom_eq_ok.mpr room]
    rfl
  rw [entriesFrom, collected]
  change (((Cursor.take count ⟨s.layout, position⟩).1.mapM fun index => do
    return (index, ← s.read index)) >>= _) = _
  rw [seen, mapM_read reads]
  rfl

theorem entries_eq (h : s.Bounded) (room : s.layout.size < Word.room) :
    s.entries = .ok s.pairs := by
  have whole := entriesFrom_eq h (Nat.zero_le _) (Nat.lt_of_le_of_lt (Nat.min_le_left ..) room)
  rw [List.drop_zero, List.take_of_length_le (Nat.le_of_eq s.length_pairs)] at whole
  rw [entries, Cursor.atStart, whole]
  rfl

/-- One step after the other yields these pairs, and then no more. -/
inductive YieldsPairs (s : Structure α) : Cursor → List (List Nat × α) → Prop
  | done {cursor : Cursor} : s.entriesFrom 1 cursor = .ok ([], cursor) → YieldsPairs s cursor []
  | more {cursor after : Cursor} {pair : List Nat × α} {rest : List (List Nat × α)} :
      s.entriesFrom 1 cursor = .ok ([pair], after) → YieldsPairs s after rest →
      YieldsPairs s cursor (pair :: rest)

theorem yieldsPairs_from (h : s.Bounded) {position count : Nat}
    (rest : position + count = s.layout.size) :
    s.YieldsPairs ⟨s.layout, position⟩ (s.pairs.drop position) := by
  have single (p : Nat) : min 1 (s.layout.size - p) < Word.room :=
    Nat.lt_of_le_of_lt (Nat.min_le_left ..) (by decide)
  induction count generalizing position with
  | zero =>
      rw [Nat.add_zero] at rest
      have past : s.pairs.length ≤ position := by
        rw [length_pairs, rest]
      have last : Cursor.next? ⟨s.layout, position⟩ = none :=
        Cursor.next?_eq_none_iff.mpr (by simp only [Cursor.remaining]; omega)
      have step := entriesFrom_eq h (Nat.le_of_eq rest) (single position)
      rw [List.drop_of_length_le past, List.take_nil, Cursor.take, last] at step
      rw [List.drop_of_length_le past]
      exact .done step
  | succ count ih =>
      have inside : position < s.pairs.length := by
        rw [length_pairs]
        omega
      have before : position < s.layout.size := by rwa [length_pairs] at inside
      have next : Cursor.next? ⟨s.layout, position⟩ =
          some (s.layout.index position, ⟨s.layout, position + 1⟩) :=
        Cursor.next?_eq_some_iff.mpr ⟨before, rfl, rfl⟩
      have step := entriesFrom_eq h (Nat.le_of_lt before) (single position)
      rw [List.drop_eq_getElem_cons inside, Cursor.take, next] at step
      rw [List.drop_eq_getElem_cons inside]
      exact .more step (ih (by omega))

/-- A function that takes its results from an iteration and ignores what it is called with. -/
def nextElement (s : Structure α) (usedUp : Fault) (_ : List Nat) : Callback Cursor α := do
  match ← s.entriesFrom 1 (← get) with
  | (pair :: _, after) =>
      set after
      return pair.2
  | ([], _) => throw usedUp

theorem YieldsPairs.calls {cursor : Cursor} {pairs : List (List Nat × α)}
    (h : s.YieldsPairs cursor pairs) (usedUp : Fault) :
    ∃ after, Calls (s.nextElement usedUp) cursor (pairs.map Prod.fst) (pairs.map Prod.snd) after ∧
      s.YieldsPairs after [] := by
  induction h with
  | done step => exact ⟨_, .nil, .done step⟩
  | @more cursor after pair rest step _ ih =>
      obtain ⟨last, calls, ended⟩ := ih
      refine ⟨last, .cons ?_ calls, ended⟩
      have here : (s.nextElement usedUp pair.1).run cursor = (s.entriesFrom 1 cursor >>= fun r =>
          match r with
          | (pair :: _, after) => .ok (pair.2, after)
          | ([], _) => .error usedUp) := by
        change ((s.entriesFrom 1 cursor >>= fun r => .ok (r, cursor)) >>= _) = _
        cases s.entriesFrom 1 cursor with
        | error fault => rfl
        | ok r =>
            obtain ⟨found, after⟩ := r
            cases found <;> rfl
      rw [here, step]
      rfl

/-- The tensor that an iteration is turned into has the contents that were iterated over, and
nothing is left. -/
theorem exists_rebuilt (h : s.Bounded) (room : s.layout.size < Word.room) (usedUp : Fault) :
    ∃ t after, (Tensor.ofFunction s.shape (s.nextElement usedUp)).run (.atStart s.layout) =
      .ok (t, after) ∧ s.YieldsPairs after [] ∧ s.LooksLike (.stored t) := by
  have made : Layout.forStore s.shape = .ok s.layout := Layout.forStore_self room
  obtain ⟨after, calls, ended⟩ := (yieldsPairs_from h (Nat.zero_add _)).calls usedUp
  rw [List.drop_zero, indices_pairs, elements_pairs] at calls
  obtain ⟨t, ran, results⟩ := (Tensor.ofFunction_isPass made _).returns _ _ _ calls
  have bounded : t.Bounded := Tensor.bounded_ofFunction ran
  exact ⟨t, after, ran, ended, results.layout_eq, results.cells_eq, fun _ => bounded⟩

theorem contentEquals_itself [BEq α] (h : s.Bounded)
    (reflexive : ∀ x ∈ s.elements, (x == x) = true) : s.contentEquals s = .ok true := by
  have agrees : s.AgreesWith s (· == ·) := by
    refine ⟨rfl, fun index hi => ?_⟩
    obtain ⟨x, here, read⟩ := read_eq h hi
    exact ⟨x, x, read, read, reflexive x (List.mem_of_getElem? here)⟩
  rw [contentEquals, allEntries_eq h h, if_pos rfl, (allPairs_eq_true_iff h h rfl _).mpr agrees]

end Structure

/-- The multi-indices of the shape, each of them once and in lexicographic order. -/
structure Enumerates (shape : List Nat) (all : List (List Nat)) : Prop where
  ordered : all.Pairwise (· < ·)
  complete : ∀ index, index ∈ all ↔ InBounds shape index
  count_eq : all.length = product shape

theorem enumerates_multiIndices (layout : Layout) :
    Enumerates layout.shape layout.multiIndices where
  ordered := layout.pairwise_multiIndices
  complete _ := Layout.mem_multiIndices
  count_eq := by rw [layout.length_multiIndices, layout.size_eq_product]

/-- A new tensor has the results of calls for all multi-indices of its shape. The function is not
called at all for a tensor that cannot be made. -/
structure IsBuiltInOrder (shape : List Nat) (f : List Nat → Callback σ β) : Prop where
  builds : ∀ layout, Layout.forStore shape = .ok layout →
    Enumerates shape layout.multiIndices ∧
      IsPass (Tensor.ofFunction shape f) layout f layout.multiIndices
  refuses : ∀ fault, Layout.forStore shape = .error fault →
    ∀ s, (Tensor.ofFunction shape f).run s = .error fault
  /-- A layout that there is already is as good as its shape. -/
  shared : ∀ layout, layout.shape = shape → Tensor.generate layout f = Tensor.ofFunction shape f

/-- Passes over a structure and iterations over it meet the same pairs of multi-indices and
elements, and an iteration has all that is needed to build the structure again. -/
structure IsPassedInOrder (s : Structure α) : Prop where
  enumerates : Enumerates s.shape (s.pairs.map Prod.fst)
  yields : s.YieldsPairs (.atStart s.layout) s.pairs
  lists : s.layout.size < Word.room → s.entries = .ok s.pairs
  reads : ∀ pair ∈ s.pairs, s.read pair.1 = .ok pair.2
  maps : ∀ {t : Tensor α} {σ β : Type} (f : List Nat → α → Callback σ β), s = .stored t →
    IsPass (t.mapIndexedM f) s.layout (fun pair => f pair.1 pair.2) s.pairs
  updates : ∀ {t : Tensor α} {σ : Type} (f : List Nat → α → Callback σ α), s = .stored t →
    IsPass (t.updateM f) s.layout (fun pair => f pair.1 pair.2) s.pairs ∧
      t.updateM f = t.rewriteFrom f s.layout.multiIndices ∧
      ∀ before t' after, (t.updateM f).run before = .ok (t', after) → t.AgreesAround t'
  rebuilds : ∀ usedUp, s.layout.size < Word.room → ∃ t after,
    (Tensor.ofFunction s.shape (s.nextElement usedUp)).run (.atStart s.layout) = .ok (t, after) ∧
      s.YieldsPairs after [] ∧ s.LooksLike (.stored t) ∧
      ∀ [BEq α], s.contentEquals (.stored t) = s.contentEquals s ∧
        ((∀ x ∈ s.elements, (x == x) = true) → s.contentEquals (.stored t) = .ok true)

theorem isBuiltInOrder (shape : List Nat) (f : List Nat → Callback σ β) :
    IsBuiltInOrder shape f where
  builds layout made := by
    obtain ⟨rfl, _⟩ := Layout.forStore_eq_ok made
    exact ⟨enumerates_multiIndices layout, Tensor.ofFunction_isPass made f⟩
  refuses _ refused := Tensor.ofFunction_refuses refused f
  shared layout same := by
    subst same
    exact (Tensor.ofFunction_self layout f).symm

theorem Structure.Bounded.isPassedInOrder {s : Structure α} (h : s.Bounded) :
    IsPassedInOrder s where
  enumerates := by
    rw [s.indices_pairs]
    exact enumerates_multiIndices s.layout
  yields := s.yieldsPairs_from h (Nat.zero_add _)
  lists := Structure.entries_eq h
  reads _ mem := Structure.read_pairs h mem
  maps f same := by
    subst same
    rw [Structure.pairs_stored]
    exact Tensor.mapIndexedM_isPass _ f
  updates f same := by
    subst same
    have addressable := Tensor.addressable_of_store h
    rw [Structure.pairs_stored]
    exact ⟨Tensor.updateM_isPass addressable f, Tensor.updateM_eq addressable f,
      fun _ _ _ ran => Tensor.agreesAround_updateM ran⟩
  rebuilds usedUp room := by
    obtain ⟨t, after, ran, ended, like⟩ := Structure.exists_rebuilt h room usedUp
    refine ⟨t, after, ran, ended, like, ?_⟩
    intro equality
    have same : s.contentEquals (.stored t) = s.contentEquals s :=
      Structure.allEntries_congr h h Structure.StandIn.itself.looksLike like _
    exact ⟨same, fun reflexive => same.trans (Structure.contentEquals_itself h reflexive)⟩

/-- Whatever state a function keeps, passes call it once for each multi-index, in lexicographic
order and with the element there, and put its results there. An iteration over any structure
yields the same pairs. -/
theorem passes_areInOrder {s : Structure α} (h : s.Bounded) :
    (∀ {σ β : Type} (shape : List Nat) (f : List Nat → Callback σ β), IsBuiltInOrder shape f) ∧
      IsPassedInOrder s :=
  ⟨isBuiltInOrder, h.isPassedInOrder⟩

/-- A table amid other data. Replacing each element by ten times itself and the number of calls
before shows the order of the calls and leaves the other data alone. -/
theorem passes_areInOrder_table : Structure.storedTable.Bounded ∧
    ((∀ {σ β : Type} (shape : List Nat) (f : List Nat → Callback σ β), IsBuiltInOrder shape f) ∧
      IsPassedInOrder Structure.storedTable) ∧
    Structure.storedTable.pairs =
      [([0, 0], 0), ([0, 1], 1), ([0, 2], 2), ([1, 0], 1), ([1, 1], 2), ([1, 2], 3)] ∧
    ∃ t, Structure.storedTable = .stored t ∧
      (fun r => (r.1.store, r.2)) <$> (t.updateM fun _ x => do
        return 10 * x + (← getModify (· + 1)) : Callback Nat _).run 0 =
          .ok (#[9, 0, 11, 22, 13, 24, 35, 9], 6) :=
  have bounded : Structure.storedTable.Bounded := by
    show 8 < Word.bound
    decide
  ⟨bounded, passes_areInOrder bounded, by decide, _, rfl,
    by rw [Tensor.updateM_eq (Tensor.addressable_of_store bounded)]; rfl⟩

end RowMajor

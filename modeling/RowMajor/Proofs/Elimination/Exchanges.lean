import Mathlib
import RowMajor.Event
import RowMajor.Proofs.Elimination.Order

/-! What an elimination reports. Its exchanges, one after the other, lead from the order of
the input to its row order. Each is of two different rows, and the last row has nothing left
to be exchanged with. No law of the scalars is used. -/
namespace RowMajor
variable {α : Type} {n : Nat}

/-- Exchanges two numbers where an event says that two rows are exchanged. -/
def Event.move (numbers : Array Nat) : Event → Array Nat
  | .rowExchange i k => numbers.swapIfInBounds i k
  | _ => numbers

namespace Pivots

/-- The row order that some exchanges lead to. -/
def after (exchanges : List (Fin n × Fin n)) : Pivots n :=
  exchanges.foldl (fun pivots x => pivots.exchange x.1 x.2) (identity n)

theorem after_concat (exchanges : List (Fin n × Fin n)) (x : Fin n × Fin n) :
    after (exchanges ++ [x]) = (after exchanges).exchange x.1 x.2 :=
  List.foldl_concat ..

theorem swaps_after (exchanges : List (Fin n × Fin n)) :
    (after exchanges).swaps = exchanges.length := by
  induction exchanges using List.reverseRecOn with
  | nil => rfl
  | append_singleton exchanges x ih =>
      rw [after_concat, exchange, ih, List.length_append, List.length_singleton]

theorem indices_eq_ofFn (pivots : Pivots n) :
    pivots.indices = List.ofFn fun i => (pivots.order i : Nat) := by
  apply List.ext_getElem
  · simp [indices]
  · intro p _ _
    simp [indices, order, Mat.get_eq]

theorem Follows.indices_eq {pivots : Pivots n} {σ : Equiv.Perm (Fin n)} (h : pivots.Follows σ) :
    pivots.indices = List.ofFn fun i => (σ i : Nat) := by
  rw [indices_eq_ofFn, h.order_eq]

theorem Follows.indices_perm {pivots : Pivots n} {σ : Equiv.Perm (Fin n)} (h : pivots.Follows σ) :
    pivots.indices.Perm (List.range n) := by
  have all : List.ofFn (fun i : Fin n => (i : Nat)) = List.range n := by
    apply List.ext_getElem <;> simp
  rw [h.indices_eq, ← all]
  exact σ.ofFn_comp_perm fun i => (i : Nat)

theorem toArray_indices_identity : (identity n).indices.toArray = Array.range n := by
  apply Array.ext
  · simp [indices]
  · intro p _ _
    simp [indices, identity]

theorem toArray_indices_exchange (pivots : Pivots n) (i k : Fin n) :
    (pivots.exchange i k).indices.toArray = pivots.indices.toArray.swapIfInBounds i k := by
  have first : (i : Nat) < pivots.indices.toArray.size := by simp [indices]
  have second : (k : Nat) < pivots.indices.toArray.size := by simp [indices]
  rw [Array.swapIfInBounds_def, dif_pos first, dif_pos second]
  apply Array.ext
  · simp [indices]
  · intro p _ _
    simp only [indices, exchange, List.getElem_toArray, List.getElem_map, Vector.getElem_toList,
      Vector.getElem_swap, Array.getElem_swap]
    split
    · rfl
    · split <;> rfl

theorem toArray_indices_after (exchanges : List (Fin n × Fin n)) :
    (after exchanges).indices.toArray =
      (exchanges.map fun x => Event.rowExchange x.1 x.2).foldl Event.move (Array.range n) := by
  induction exchanges using List.reverseRecOn with
  | nil => exact toArray_indices_identity
  | append_singleton exchanges x ih =>
      rw [after_concat, toArray_indices_exchange, ih, List.map_append, List.foldl_append]
      rfl

end Pivots

namespace Elimination
variable [Scalar α]

/-- The exchanges of the first `count` steps have made the row order. -/
structure Recorded (e : Elimination α n) (count : Nat) : Prop where
  pivots : e.pivots = .after e.exchanges
  apart : ∀ x ∈ e.exchanges, x.1 < x.2
  few : e.exchanges.length ≤ min count (n - 1)

theorem Recorded.choose {e : Elimination α n} {i : Fin n} (h : e.Recorded i) :
    (e.choose i).Recorded (i + 1) := by
  have le := e.matrix.le_pivotRow i
  have few := h.few
  simp only [Elimination.choose]
  split
  · exact ⟨h.pivots, h.apart, by omega⟩
  · rename_i other
    have before : i < e.matrix.pivotRow i := lt_of_le_of_ne le (Ne.symm other)
    have small := (e.matrix.pivotRow i).isLt
    constructor
    · rw [exchange, Pivots.after_concat, ← h.pivots]
    · intro x member
      rcases List.mem_append.mp member with earlier | now
      · exact h.apart x earlier
      · rw [List.mem_singleton.mp now]
        exact before
    · -- A row is found behind row `i`, which is therefore not the last one.
      simp only [exchange, List.length_append, List.length_singleton]
      omega

theorem recorded_run (a : Mat α n n) : (run a).Recorded n := by
  apply foldl_invariant fun count e => Recorded e count
  · exact ⟨rfl, fun _ member => absurd member List.not_mem_nil, Nat.zero_le _⟩
  · intro i e h
    exact ⟨h.choose.pivots, h.choose.apart, h.choose.few⟩

end Elimination
end RowMajor

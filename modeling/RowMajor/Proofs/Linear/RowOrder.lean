import Mathlib
import RowMajor.Scalar.Elementary
import RowMajor.Proofs.Elimination.Exchanges
import RowMajor.Proofs.Linear.Factor

/-! The row order of a factored tensor. It is a permutation that the reported exchanges lead
to, and without any exchange the rows in this order have the same combined factors. No law of
the scalars is used, so that entries that are no numbers make no difference. -/
namespace RowMajor
variable {n : Nat}

/-- A permutation of the row numbers, reached by fewer exchanges than there are rows. Their
parity is its sign. -/
structure Pivots.IsRowOrder (α : Type) [Scalar α] (pivots : Pivots n) : Prop where
  permutation : pivots.indices.Perm (List.range n)
  few : pivots.swaps ≤ max n 1 - 1
  sign : ∃ σ : Equiv.Perm (Fin n), pivots.indices = List.ofFn (fun i => (σ i : Nat)) ∧
    (pivots.sign : α) = if Equiv.Perm.sign σ = 1 then 1 else -1

/-- The events are exchanges of different rows, as many as were made. Carried out on the row
numbers one after the other, they give the row order. -/
structure Pivots.IsReported (pivots : Pivots n) (events : Log) : Prop where
  exchanges : ∀ event ∈ events, ∃ i k : Nat, i < k ∧ k < n ∧ event = .rowExchange i k
  number : events.size = pivots.swaps
  order : (events.foldl Event.move (Array.range n)).toList = pivots.indices

theorem Pivots.Follows.isRowOrder {α : Type} [Scalar α] {pivots : Pivots n}
    {σ : Equiv.Perm (Fin n)} (h : pivots.Follows σ) (few : pivots.swaps ≤ n - 1) :
    pivots.IsRowOrder α where
  permutation := h.indices_perm
  few := by omega
  sign := ⟨σ, h.indices_eq, h.sign_eq_ite⟩

namespace Linear
open InPlace (Ends Returns)
variable {α : Type} [Scalar α]

theorem isReported_run (a : Mat α n n) :
    (Elimination.run a).pivots.IsReported (exchangeEvents a) := by
  have recorded := Elimination.recorded_run a
  constructor
  · intro event member
    obtain ⟨x, made, rfl⟩ := List.mem_map.mp (List.mem_toArray.mp member)
    exact ⟨x.1, x.2, recorded.apart x made, x.2.isLt, rfl⟩
  · rw [recorded.pivots, Pivots.swaps_after, exchangeEvents, List.size_toArray, List.length_map]
  · rw [exchangeEvents, List.foldl_toArray, ← Pivots.toArray_indices_after, ← recorded.pivots]

/-- The order of the input is a row order, and so is the order that a factorization returns,
which is the one that its report leads to. -/
theorem factorInPlace_reportsRowOrder (α : Type) [Scalar α] :
    (∀ n, (Pivots.identity n).IsRowOrder α) ∧
      ∀ {n : Nat} (t : Tensor α), t.shape = [n, n] →
        ∃ (pivots : Pivots n) (lu : Tensor α) (events : Log),
          (∀ log, Ends factorInPlace t log (.ok ⟨n, pivots⟩) lu (log ++ events)) ∧
          pivots.IsRowOrder α ∧ pivots.IsReported events := by
  constructor
  · intro n
    exact Pivots.identity_follows.isRowOrder (Nat.zero_le _)
  · intro n t h
    obtain ⟨σ, follows⟩ := Elimination.follows_run (t.matrix h)
    have recorded := Elimination.recorded_run (t.matrix h)
    have few : (Elimination.run (t.matrix h)).pivots.swaps ≤ n - 1 := by
      rw [recorded.pivots, Pivots.swaps_after]
      exact recorded.few.trans (Nat.min_le_right ..)
    exact ⟨_, _, _, factorInPlace_ends h, follows.isRowOrder few, isReported_run _⟩

/-- The second exchange passes over an entry that is no number. -/
def unorderedEntry : Tensor Float :=
  ⟨lateExchange.layout, #[0, 1, 1, 2, 0 / 0, 1 / 0, 4, 3, 1], 0, by decide⟩

theorem factorInPlace_reportsRowOrder_unorderedEntry :
    unorderedEntry.shape = [3, 3] ∧
      ∃ (pivots : Pivots 3) (lu : Tensor Float) (events : Log),
        (∀ log, Ends factorInPlace unorderedEntry log (.ok ⟨3, pivots⟩) lu (log ++ events)) ∧
        pivots.IsRowOrder Float ∧ pivots.IsReported events :=
  ⟨rfl, (factorInPlace_reportsRowOrder Float).2 unorderedEntry rfl⟩

example : (Elimination.run (unorderedEntry.matrix (rfl : _ = [3, 3]))).pivots =
    ⟨#v[2, 0, 1], 2⟩ := by
  decide +kernel

/-- The combined factors are what clearing the columns leaves of the matrix whose row `i` is
row `rows[i]` of the input, with no search for pivots and no exchange. -/
theorem factorInPlace_eq_cleared {t : Tensor α} {a : Mat α n n} (ht : t.Holds a) :
    ∃ (pivots : Pivots n) (lu : Tensor α), Returns factorInPlace t ⟨n, pivots⟩ lu ∧
      lu.Holds (Fin.foldl n Mat.eliminate (Mat.ofFn fun i j => a.entry (pivots.rows.get i) j)) := by
  obtain ⟨lu, factored, hlu⟩ := factorInPlace_returns ht
  rw [Elimination.matrix_run, Mat.eliminatedTo, loopTo_all] at hlu
  exact ⟨_, lu, factored, hlu⟩

theorem factorInPlace_eq_cleared_unorderedEntry :
    ∃ (pivots : Pivots 3) (lu : Tensor Float), Returns factorInPlace unorderedEntry ⟨3, pivots⟩ lu ∧
      lu.Holds (Fin.foldl 3 Mat.eliminate
        (Mat.ofFn fun i j => (unorderedEntry.matrix rfl).entry (pivots.rows.get i) j)) :=
  factorInPlace_eq_cleared ⟨rfl, rfl⟩

end Linear
end RowMajor

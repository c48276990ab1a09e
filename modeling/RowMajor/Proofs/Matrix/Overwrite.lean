import Mathlib
import RowMajor.Matrix.Basic
import RowMajor.Proofs.Fold

/-! Matrices written entry by entry. Once every entry has been written, nothing is left of
what was there before. -/
namespace RowMajor.Mat
variable {α : Type} {n m : Nat}

/-- The entries at the first `count` places have been written. -/
def WrittenTo (f : Fin n → Fin m → α) (count : Nat) (a : Mat α n m) : Prop :=
  ∀ p : Fin (n * m), (p : Nat) < count → a.entry (rowOf p) (colOf p) = f (rowOf p) (colOf p)

theorem WrittenTo.step {f : Fin n → Fin m → α} {p : Fin (n * m)} {a : Mat α n m}
    (h : WrittenTo f p a) :
    WrittenTo f (p + 1) (a.put (rowOf p) (colOf p) (f (rowOf p) (colOf p))) := by
  intro q before
  rw [entry_put]
  split
  · rename_i here
    rw [here.1, here.2]
  · rename_i elsewhere
    have apart : q ≠ p := by
      rintro rfl
      exact elsewhere ⟨rfl, rfl⟩
    have := Fin.val_ne_of_ne apart
    exact h q (by omega)

theorem writeAll_eq (a : Mat α n m) (f : Fin n → Fin m → α) : a.writeAll f = ofFn f := by
  have all : WrittenTo f (n * m) (a.writeAll f) :=
    foldl_invariant (fun count b => WrittenTo f count b)
      (fun p none => absurd none (Nat.not_lt_zero p)) fun _ _ h => h.step
  apply ext_entry
  intro i j
  have here := all (place i j) (place i j).isLt
  rwa [rowOf_place, colOf_place, ← entry_ofFn f] at here

end RowMajor.Mat

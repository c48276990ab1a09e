import Mathlib
import RowMajor.Tensor.Place
import RowMajor.Proofs.Tensor.Sequence

/-! Places to write to. A view that is put back fills its own place in the tensor, and
everything else stays, inside the tensor and around it. -/
namespace RowMajor
variable {α β γ : Type}

/-- What has a result has had one at its first step. -/
theorem bind_found {ε : Type} {first : Except ε β} {rest : β → Except ε γ} {y : γ}
    (h : (first >>= rest) = .ok y) : ∃ x, first = .ok x ∧ rest x = .ok y := by
  cases first with
  | error refusal => cases h
  | ok x => exact ⟨x, rfl, h⟩

theorem attempt_bind_found {first : Attempt (Except Fault) β}
    {rest : β → Attempt (Except Fault) γ} {y : γ} (h : (first >>= rest).run = .ok (.ok y)) :
    ∃ x, first.run = .ok (.ok x) ∧ (rest x).run = .ok (.ok y) := by
  rw [ExceptT.run_bind] at h
  obtain ⟨result, found, next⟩ := bind_found h
  cases result with
  | error refusal => cases next
  | ok x => exact ⟨x, found, next⟩

theorem lift_found {step : Except Fault β} {x : β}
    (h : (ExceptT.lift step : Attempt (Except Fault) β).run = .ok (.ok x)) : step = .ok x := by
  cases step with
  | error fault => cases h
  | ok y =>
      cases h
      rfl

namespace Tensor

theorem AgreesAround.refl (t : Tensor α) : t.AgreesAround t :=
  ⟨rfl, rfl, fun _ _ => rfl⟩

theorem AgreesAround.trans {t s r : Tensor α} (h : t.AgreesAround s) (h' : s.AgreesAround r) :
    t.AgreesAround r where
  layout_eq := h'.layout_eq.trans h.layout_eq
  start_eq := h'.start_eq.trans h.start_eq
  outside p around := by
    rw [h'.outside p (by rwa [h.layout_eq, h.start_eq]), h.outside p around]

/-- Only the elements can differ. -/
theorem AgreesAround.toList_store {t s : Tensor α} (h : t.AgreesAround s) :
    s.store.toList = t.store.toList.take t.start ++ s.cells.toList ++
      t.store.toList.drop (t.start + t.layout.size) := by
  have before : s.store.toList.take t.start = t.store.toList.take t.start := by
    apply List.ext_getElem?
    intro p
    rw [List.getElem?_take, List.getElem?_take]
    split
    · rename_i low
      rw [Array.getElem?_toList, Array.getElem?_toList, h.outside p (Or.inl low)]
    · rfl
  have behind : s.store.toList.drop (t.start + t.layout.size) =
      t.store.toList.drop (t.start + t.layout.size) := by
    apply List.ext_getElem?
    intro p
    rw [List.getElem?_drop, List.getElem?_drop, Array.getElem?_toList, Array.getElem?_toList,
      h.outside _ (Or.inr (Nat.le_add_right _ p))]
  rw [← before, ← behind, toList_cells, h.layout_eq, h.start_eq, ← List.drop_drop,
    List.append_assoc, List.take_append_drop, List.take_append_drop]

theorem inStore_found {store : Array α} {layout : Layout} {start : Nat} {t : Tensor α}
    (h : inStore store layout start = .ok t) :
    ∃ fits : start + layout.size ≤ store.size, t = ⟨layout, store, start, fits⟩ := by
  obtain ⟨⟨fits⟩, _, made⟩ := bind_found h
  exact ⟨fits, (Except.ok.inj made).symm⟩

/-- The elements from `first` on are those of the view, and everything else is as before. -/
structure Receives (t : Tensor α) (first : Nat) (view after : Tensor α) : Prop where
  around : t.AgreesAround after
  fits : first + view.size ≤ t.size
  cells : after.cells.toList =
    t.cells.toList.take first ++ view.cells.toList ++ t.cells.toList.drop (first + view.size)

end Tensor

namespace Place

/-- The place begins at `first` in tensors of this kind, and may be put back into this one. A
chunk may be put back where other chunks have been. -/
inductive Destination : Place α → Nat → Tensor α → Prop
  | whole (t : Tensor α) : Destination (whole t) 0 t
  | chunk {t t' : Tensor α} {keep k : Nat} {p : Place α}
      (found : (chunk? t keep k).run = .ok (.ok (some p))) (same : t'.layout = t.layout) :
      Destination p (k * p.view.size) t'
  | within {t : Tensor α} {shape : List Nat} {start : Nat} {p : Place α}
      (found : (within t shape start).run = .ok (.ok p)) : Destination p start t

theorem chunk_found {t : Tensor α} {keep k : Nat} {p : Place α}
    (found : (chunk? t keep k).run = .ok (.ok (some p))) :
    ∃ (split : Split t.layout) (number : Fin split.count), number = k ∧
      p = ⟨(split.item number).copy, fun t chunk => t.withChunk k chunk⟩ := by
  by_cases deep : t.rank < keep
  · rw [chunk?, ExceptT.run_bind, Tensor.chunks_refuse deep] at found
    cases found
  · have cut := List.take_append_drop (t.rank - keep) t.shape
    have width : (t.shape.drop (t.rank - keep)).length = keep := by
      rw [List.length_drop]
      exact Nat.sub_sub_self (Nat.le_of_not_lt deep)
    obtain ⟨split, _, _, chunks⟩ := Tensor.sequences_eq cut.symm
    rw [width] at chunks
    rw [chunk?, ExceptT.run_bind, chunks] at found
    have here := Except.ok.inj (Except.ok.inj found)
    obtain ⟨chunk, there, rfl⟩ := Option.map_eq_some_iff.mp here
    obtain ⟨inside, rfl⟩ := List.getElem?_eq_some_iff.mp there
    rw [List.length_map, List.length_finRange] at inside
    exact ⟨split, ⟨k, inside⟩, rfl, by simp⟩

theorem within_found {t : Tensor α} {shape : List Nat} {start : Nat} {p : Place α}
    (found : (within t shape start).run = .ok (.ok p)) :
    ∃ (layout : Layout) (fits : start + layout.size ≤ t.cells.toArray.size), layout.shape = shape ∧
      p = ⟨⟨layout, t.cells.toArray, start, fits⟩, fun t view => t.splice 0 view.store⟩ := by
  unfold within at found
  obtain ⟨layout, made, found⟩ := attempt_bind_found found
  obtain ⟨view, cut, found⟩ := attempt_bind_found found
  obtain ⟨fits, rfl⟩ := Tensor.inStore_found (Except.ok.inj cut)
  cases found
  exact ⟨layout, fits, Layout.shape_of_ofShape (lift_found made), rfl⟩

/-- A view that has changed in its place only. -/
theorem Destination.receives {p : Place α} {first : Nat} {t after : Tensor α}
    (h : Destination p first t) (changed : p.view.AgreesAround after) :
    t.Receives first after (p.putBack t after) := by
  have size : after.size = p.view.size := congrArg Layout.size changed.layout_eq
  cases h with
  | whole =>
      have size : after.size = t.size := size
      refine ⟨changed, by omega, ?_⟩
      have full : t.cells.toList.length ≤ 0 + after.size := by
        rw [Vector.length_toList, Nat.zero_add, size]
        exact Nat.le_refl _
      rw [List.take_zero, List.nil_append, List.drop_of_length_le full, List.append_nil]
      rfl
  | @chunk t₀ _ keep k _ found same =>
      obtain ⟨split, number, rfl, rfl⟩ := chunk_found found
      have size : after.size = split.inner.size := size
      have fits : number * after.size + after.size ≤ t.size := by
        rw [size, Tensor.size, same]
        exact split.item_fits number
      have width : (split.item number).copy.size = after.size := size.symm
      rw [width]
      refine ⟨Tensor.agreesAround_splice t _ _, fits, ?_⟩
      rw [← Nat.succ_mul]
      exact Tensor.toList_cells_withChunk fits
  | within found =>
      obtain ⟨layout, fits, _, rfl⟩ := within_found found
      have size : after.size = layout.size := size
      have store : after.store.toList = t.cells.toList.take first ++ after.cells.toList ++
          t.cells.toList.drop (first + after.size) := by
        rw [size]
        exact changed.toList_store
      have inside : first + after.size ≤ t.size := by
        rw [size]
        rwa [Vector.size_toArray] at fits
      have width : 0 + after.store.size = t.layout.size := by
        rw [Nat.zero_add, ← Array.length_toList, store, List.length_append, List.length_append,
          List.length_take, List.length_drop, Vector.length_toList, Vector.length_toList]
        simp only [Tensor.size] at inside ⊢
        omega
      refine ⟨Tensor.agreesAround_splice t _ _, inside, ?_⟩
      refine (Tensor.toList_cells_splice (Nat.le_of_eq width)).trans ?_
      rw [width, List.take_zero, List.nil_append, List.drop_of_length_le, List.append_nil, store]
      rw [Vector.length_toList]

end Place
end RowMajor

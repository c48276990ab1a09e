import Mathlib
import RowMajor.Tensor.Traverse
import RowMajor.Proofs.Tensor.Place
import RowMajor.Proofs.Tensor.Tiling

/-! Everything that calls can make. Whatever has been called before, a tensor lies inside its
store, and its elements are read and written in place. -/
namespace RowMajor
open Layout (InBounds rowOffset)

/-- Tensors of all types of elements. -/
abbrev AnyTensor :=
  (α : Type) × Tensor α

/-- A function of the caller's. It may keep a state and may fault. -/
abbrev Callback (σ : Type) :=
  StateT σ (Except Fault)

/-- What one call makes out of the tensors that there are. -/
inductive Makes (past : List AnyTensor) : AnyTensor → Prop
  | generate {α σ : Type} {layout : Layout} {f : List Nat → Callback σ α} {s s' : σ} {t : Tensor α}
      (ran : (Tensor.generate layout f).run s = .ok (t, s')) : Makes past ⟨α, t⟩
  | ofArray {α : Type} {layout : Layout} {cells : Array α} {t : Tensor α}
      (made : Tensor.ofArray layout cells = .ok t) : Makes past ⟨α, t⟩
  | inStore {α : Type} {store : Array α} {layout : Layout} {start : Nat} {t : Tensor α}
      (bounded : store.size < Word.bound) (made : Tensor.inStore store layout start = .ok t) :
      Makes past ⟨α, t⟩
  | filled {α : Type} {shape : List Nat} {value : α} {t : Tensor α}
      (made : Tensor.filled shape value = .ok t) : Makes past ⟨α, t⟩
  /-- A clone, or another view of the whole. -/
  | again {α : Type} {t : Tensor α} (known : ⟨α, t⟩ ∈ past) : Makes past ⟨α, t⟩
  | copy {α : Type} {t : Tensor α} (known : ⟨α, t⟩ ∈ past) : Makes past ⟨α, t.copy⟩
  /-- A view over the store of another one, including what lies around its elements. -/
  | overStore {α : Type} {t t' : Tensor α} {layout : Layout} {start : Nat} (known : ⟨α, t⟩ ∈ past)
      (made : Tensor.inStore t.store layout start = .ok t') : Makes past ⟨α, t'⟩
  | overElements {α : Type} {t t' : Tensor α} {layout : Layout} {start : Nat}
      (known : ⟨α, t⟩ ∈ past) (made : Tensor.inStore t.cells.toArray layout start = .ok t') :
      Makes past ⟨α, t'⟩
  | item {α : Type} {t item : Tensor α} {keep : Nat} {items : List (Tensor α)}
      (known : ⟨α, t⟩ ∈ past) (found : (t.items keep).run = .ok (.ok items)) (mem : item ∈ items) :
      Makes past ⟨α, item⟩
  | chunk {α : Type} {t : Tensor α} {keep k : Nat} {p : Place α} (known : ⟨α, t⟩ ∈ past)
      (found : (Place.chunk? t keep k).run = .ok (.ok (some p))) : Makes past ⟨α, p.view⟩
  | within {α : Type} {t : Tensor α} {shape : List Nat} {start : Nat} {p : Place α}
      (known : ⟨α, t⟩ ∈ past) (found : (Place.within t shape start).run = .ok (.ok p)) :
      Makes past ⟨α, p.view⟩
  | map {α β σ : Type} {t : Tensor α} {f : α → Callback σ β} {s s' : σ} {t' : Tensor β}
      (known : ⟨α, t⟩ ∈ past) (ran : (t.mapM f).run s = .ok (t', s')) : Makes past ⟨β, t'⟩
  | mapIndexed {α β σ : Type} {t : Tensor α} {f : List Nat → α → Callback σ β} {s s' : σ}
      {t' : Tensor β} (known : ⟨α, t⟩ ∈ past) (ran : (t.mapIndexedM f).run s = .ok (t', s')) :
      Makes past ⟨β, t'⟩
  | zip {α β γ σ : Type} {a : Tensor α} {b : Tensor β} {f : α → β → Callback σ γ} {s s' : σ}
      {t : Tensor γ} (left : ⟨α, a⟩ ∈ past) (right : ⟨β, b⟩ ∈ past)
      (ran : (a.zipWithM b f).run.run s = .ok (.ok t, s')) : Makes past ⟨γ, t⟩
  | write {α : Type} {t t' : Tensor α} {index : List Nat} {value : α} (known : ⟨α, t⟩ ∈ past)
      (made : t.write index value = .ok t') : Makes past ⟨α, t'⟩
  | fill {α : Type} {t : Tensor α} (known : ⟨α, t⟩ ∈ past) (value : α) :
      Makes past ⟨α, t.fill value⟩
  /-- Writing to the slice of the elements. -/
  | overwrite {α : Type} {t : Tensor α} (known : ⟨α, t⟩ ∈ past) (cells : Vector α t.layout.size) :
      Makes past ⟨α, t.overwrite cells⟩
  | copyFrom {α : Type} {t source t' : Tensor α} {result : Except Error Unit}
      (known : ⟨α, t⟩ ∈ past) (other : ⟨α, source⟩ ∈ past)
      (ran : (Tensor.copyFrom source : InPlace (Tensor α) Id Unit).run.run t = (result, t')) :
      Makes past ⟨α, t'⟩
  | update {α σ : Type} {t : Tensor α} {f : List Nat → α → Callback σ α} {s s' : σ} {t' : Tensor α}
      (known : ⟨α, t⟩ ∈ past) (ran : (t.updateM f).run s = .ok (t', s')) : Makes past ⟨α, t'⟩
  /-- The end of a view to write through. -/
  | putBack {α : Type} {t after : Tensor α} {p : Place α} {first : Nat} (known : ⟨α, t⟩ ∈ past)
      (changed : ⟨α, after⟩ ∈ past) (destination : Place.Destination p first t) :
      Makes past ⟨α, p.putBack t after⟩
  | putAllBack {α : Type} {t : Tensor α} {chunks : List (Tensor α)} (known : ⟨α, t⟩ ∈ past)
      (changed : ∀ chunk ∈ chunks, ⟨α, chunk⟩ ∈ past) : Makes past ⟨α, t.withChunks chunks⟩

/-- The tensors after a sequence of calls, the last one first. -/
inductive History : List AnyTensor → Prop
  | start : History []
  | call {past : List AnyTensor} {x : AnyTensor} (before : History past) (made : Makes past x) :
      History (x :: past)

namespace Tensor
variable {α β γ σ : Type}

theorem Bounded.splice {t : Tensor α} (h : t.Bounded) (first : Nat) (values : Array α) :
    (t.splice first values).Bounded := by
  rwa [Bounded, Tensor.splice, Array.size_mapIdx]

theorem bounded_inStore {store : Array α} {layout : Layout} {start : Nat} {t : Tensor α}
    (h : store.size < Word.bound) (made : Tensor.inStore store layout start = .ok t) :
    t.Bounded := by
  obtain ⟨_, rfl⟩ := inStore_found made
  exact h

theorem size_elements_lt (t : Tensor α) : t.cells.toArray.size < Word.bound := by
  rw [Vector.size_toArray]
  exact t.layout.size_lt

theorem Bounded.write {t t' : Tensor α} (h : t.Bounded) {index : List Nat} {value : α}
    (made : t.write index value = .ok t') : t'.Bounded := by
  unfold Tensor.write at made
  obtain ⟨place, _, made⟩ := bind_found made
  split at made
  · cases made
    rwa [Bounded, Array.size_set]
  · cases made

/-- Items share the store. -/
theorem bounded_item {t item : Tensor α} (h : t.Bounded) {keep : Nat} {items : List (Tensor α)}
    (found : (t.items keep).run = .ok (.ok items)) (mem : item ∈ items) : item.Bounded := by
  rw [Tensor.items] at found
  obtain ⟨split, _, found⟩ := attempt_bind_found found
  cases found
  obtain ⟨k, _, rfl⟩ := List.mem_map.mp mem
  exact h

/-- A computation that is mapped and does not fault. -/
theorem run_map_found {g : α → β} {x : Callback σ α} {s s' : σ} {y : β}
    (ran : (do return g (← x) : Callback σ β).run s = .ok (y, s')) : ∃ z, y = g z := by
  obtain ⟨⟨z, _⟩, _, ran⟩ := bind_found ran
  cases ran
  exact ⟨z, rfl⟩

theorem bounded_generate {layout : Layout} {f : List Nat → Callback σ α} {s s' : σ} {t : Tensor α}
    (ran : (generate layout f).run s = .ok (t, s')) : t.Bounded := by
  unfold generate at ran
  split at ran
  · cases ran
  · obtain ⟨cells, rfl⟩ := run_map_found ran
    exact bounded_compact layout cells

theorem bounded_ofArray {layout : Layout} {cells : Array α} {t : Tensor α}
    (made : ofArray layout cells = .ok t) : t.Bounded := by
  unfold ofArray at made
  split at made
  · cases made
    exact bounded_compact layout _
  · cases made

theorem bounded_filled {shape : List Nat} {value : α} {t : Tensor α}
    (made : filled shape value = .ok t) : t.Bounded := by
  unfold filled at made
  obtain ⟨layout, _, made⟩ := bind_found made
  cases made
  exact bounded_compact layout _

theorem bounded_zipWith {a : Tensor α} {b : Tensor β} {f : α → β → Callback σ γ} {s s' : σ}
    {t : Tensor γ} (ran : (a.zipWithM b f).run.run s = .ok (.ok t, s')) : t.Bounded := by
  unfold zipWithM at ran
  split at ran
  · change (ExceptT.lift (Vector.mapM _ _) >>= fun cells => pure (compact a.layout cells) :
      Attempt (Callback σ) (Tensor γ)).run.run s = _ at ran
    rw [ExceptT.run_bind_lift] at ran
    obtain ⟨cells, same⟩ := run_map_found ran
    cases same
    exact bounded_compact a.layout cells
  · cases ran

theorem Bounded.copyFrom {t source t' : Tensor α} {result : Except Error Unit} (h : t.Bounded)
    (ran : (copyFrom source : InPlace (Tensor α) Id Unit).run.run t = (result, t')) :
    t'.Bounded := by
  change (StateT.run (ExceptT.run (if t.layout = source.layout then
    (set (t.splice 0 source.cells.toArray) : InPlace (Tensor α) Id Unit) else _)) t) = _ at ran
  split at ran
  · cases ran
    exact h.splice _ _
  · cases ran
    exact h

theorem bounded_putBack {p : Place α} {first : Nat} {t after : Tensor α} (h : t.Bounded)
    (h' : after.Bounded) (destination : Place.Destination p first t) :
    (p.putBack t after).Bounded := by
  cases destination with
  | whole => exact h'
  | chunk found _ =>
      obtain ⟨_, _, _, rfl⟩ := Place.chunk_found found
      exact h.splice _ _
  | within found =>
      obtain ⟨_, _, _, rfl⟩ := Place.within_found found
      exact h.splice _ _

end Tensor

open Tensor

theorem Makes.bounded {past : List AnyTensor} {x : AnyTensor} (made : Makes past x)
    (before : ∀ y ∈ past, y.2.Bounded) : x.2.Bounded := by
  cases made with
  | generate ran => exact bounded_generate ran
  | ofArray made => exact bounded_ofArray made
  | inStore bounded made => exact bounded_inStore bounded made
  | filled made => exact bounded_filled made
  | again known => exact before _ known
  | copy known => exact bounded_compact _ _
  | @overStore _ t _ _ _ known made =>
      have h : t.Bounded := before _ known
      exact bounded_inStore h made
  | overElements known made => exact bounded_inStore (size_elements_lt _) made
  | @item _ t _ _ _ known found mem =>
      have h : t.Bounded := before _ known
      exact bounded_item h found mem
  | chunk known found =>
      obtain ⟨split, number, _, rfl⟩ := Place.chunk_found found
      exact bounded_compact _ _
  | @within _ t _ _ _ known found =>
      obtain ⟨_, _, _, rfl⟩ := Place.within_found found
      exact t.size_elements_lt
  | map known ran =>
      obtain ⟨cells, rfl⟩ := run_map_found ran
      exact bounded_compact _ cells
  | mapIndexed known ran =>
      obtain ⟨cells, rfl⟩ := run_map_found ran
      exact bounded_compact _ cells
  | zip left right ran => exact bounded_zipWith ran
  | write known made => exact (before _ known).write made
  | fill known value => exact (before _ known).splice _ _
  | overwrite known cells => exact (before _ known).splice _ _
  | @copyFrom _ t _ _ _ known other ran =>
      have h : t.Bounded := before _ known
      exact h.copyFrom ran
  | update known ran =>
      obtain ⟨cells, rfl⟩ := run_map_found ran
      exact (before _ known).splice _ _
  | putBack known changed destination =>
      exact bounded_putBack (before _ known) (before _ changed) destination
  | putAllBack known changed => exact (before _ known).splice _ _

theorem History.bounded {past : List AnyTensor} (h : History past) :
    ∀ x ∈ past, x.2.Bounded := by
  induction h with
  | start => exact fun _ mem => absurd mem List.not_mem_nil
  | call before made ih =>
      intro x mem
      rcases List.mem_cons.mp mem with rfl | earlier
      · exact made.bounded ih
      · exact ih x earlier

namespace Tensor
variable {α : Type} {t : Tensor α} {index other : List Nat}

/-- What an owner gives away are the elements. -/
theorem intoArray_eq (t : Tensor α) : t.intoArray = t.cells.toArray := by
  apply Array.toList_inj.mp
  rw [Vector.toList_toArray, toList_cells]
  unfold intoArray
  split
  · rename_i exact
    rw [exact.1, ← exact.2, List.drop_zero, ← Array.length_toList, List.take_length]
  · rw [Array.toList_drop, Array.toList_extract, List.extract_eq_take_drop, List.drop_zero,
      Nat.sub_zero, List.drop_take, Nat.add_sub_cancel_left]

theorem read_put (h : t.Addressable) (hi : InBounds t.shape index) (value : α) :
    (t.put (rowOffset t.shape index) value).read index = .ok value := by
  have small : rowOffset t.shape index < t.cells.toList.length := by
    rw [Vector.length_toList, t.size_eq_product]
    exact Layout.rowOffset_lt hi
  have there : (t.put (rowOffset t.shape index) value).Addressable := h
  apply read_eq_ok there hi
  rw [toList_cells_put]
  exact List.getElem?_set_self small

/-- Different multi-indices lie at different positions. -/
theorem read_put_of_ne (h : t.Addressable) (hi : InBounds t.shape index)
    (ho : InBounds t.shape other) (apart : other ≠ index) (value : α) :
    (t.put (rowOffset t.shape index) value).read other = t.read other := by
  have places : rowOffset t.shape index ≠ rowOffset t.shape other := by
    intro same
    apply apart
    rw [← Layout.index_rowOffset hi, ← Layout.index_rowOffset ho]
    exact congrArg t.layout.index same.symm
  obtain ⟨x, here, read⟩ := read_eq h ho
  rw [read]
  have there : (t.put (rowOffset t.shape index) value).Addressable := h
  apply read_eq_ok there ho
  rw [toList_cells_put, ← here]
  exact List.getElem?_set_ne places

/-- The tensor lies inside its store, and its elements can be read and written by themselves. -/
structure IsSound (t : Tensor α) : Prop where
  strides : rowStrides t.shape = .ok t.layout.strides
  size : elementCount t.shape = .ok t.size
  region : t.start + t.size ≤ t.store.size
  bounded : t.store.size < Word.bound
  slice : t.cells.toList = (t.store.toList.drop t.start).take t.size
  read : ∀ {index}, InBounds t.shape index → ∃ x,
    t.store[t.start + rowOffset t.shape index]? = some x ∧ t.read index = .ok x
  write : ∀ {index}, InBounds t.shape index → ∀ value, ∃ t', t.write index value = .ok t' ∧
    t'.read index = .ok value ∧ t.AgreesAround t' ∧
    ∀ {other}, InBounds t.shape other → other ≠ index → t'.read other = t.read other
  moved : t.intoArray = t.cells.toArray

theorem Bounded.isSound (h : t.Bounded) : t.IsSound where
  strides := t.layout.strides_eq
  size := t.layout.size_eq
  region := t.fits
  bounded := h
  slice := t.toList_cells
  read hi := by
    obtain ⟨x, here, read⟩ := read_eq (addressable_of_store h) hi
    refine ⟨x, ?_, read⟩
    rw [getElem?_store t (t.size_eq_product ▸ Layout.rowOffset_lt hi), here]
  write {index} hi value := by
    have addressable := addressable_of_store h
    have small : rowOffset t.shape index < t.layout.size :=
      t.size_eq_product ▸ Layout.rowOffset_lt hi
    exact ⟨_, write_eq addressable hi value, read_put addressable hi value,
      t.agreesAround_put small value, fun ho apart => read_put_of_ne addressable hi ho apart value⟩
  moved := t.intoArray_eq

/-- Whatever has been called, every tensor there is lies inside its store. -/
theorem isSound_of_history {past : List AnyTensor} (h : History past) (known : ⟨α, t⟩ ∈ past) :
    t.IsSound :=
  Bounded.isSound (h.bounded _ known)

/-- A tensor amid other data, a chunk of it that is written to, and the tensor with the chunk
put back. -/
theorem isSound_of_history_amidOthers :
    ∃ (past : List AnyTensor) (t : Tensor Nat), History past ∧ ⟨Nat, t⟩ ∈ past ∧
      t.store = #[9, 9, 0, 1, 2, 3, 4, 5, 6, 70, 8, 9, 10, 11, 9] ∧ t.IsSound := by
  have made : inStore amidOthers.store Layout.unequalSizes 2 = .ok amidOthers := rfl
  obtain ⟨p, found, changed, written, store⟩ : ∃ p,
      (Place.chunk? amidOthers 2 1).run = .ok (.ok (some p)) ∧
      ∃ changed, p.view.write [0, 1] 70 = .ok changed ∧
        (p.putBack amidOthers changed).store =
          #[9, 9, 0, 1, 2, 3, 4, 5, 6, 70, 8, 9, 10, 11, 9] := ⟨_, rfl, _, rfl, by decide⟩
  have first := History.start.call (.inStore (by decide) made)
  have second := first.call (.chunk List.mem_cons_self found)
  have third := second.call (.write List.mem_cons_self written)
  have last := third.call (.putBack (by simp) List.mem_cons_self (.chunk found rfl))
  exact ⟨_, _, last, List.mem_cons_self, store, isSound_of_history last List.mem_cons_self⟩

end Tensor
end RowMajor

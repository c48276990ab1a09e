import Mathlib
import RowMajor.Pointwise.Algebra
import RowMajor.Proofs.Fold
import RowMajor.Proofs.Structure.Elements
import RowMajor.Proofs.Pointwise.Shapes

/-! Operations on structures as operations on their elements. What an operation makes has, at
every multi-index, the value that the elements of the operands have there; a value that does
not exist is a fault of the whole. -/
namespace RowMajor
open Layout (InBounds rowOffset)
variable {α β γ δ : Type}

theorem getElem?_of_forall₂ {holds : β → γ → Prop} {xs : List β} {ys : List γ}
    (along : List.Forall₂ holds xs ys) {position : Nat} {x : β} (here : xs[position]? = some x) :
    ∃ y, ys[position]? = some y ∧ holds x y := by
  induction along generalizing position with
  | nil => cases here
  | @cons head y _ _ first _ ih =>
      cases position with
      | zero =>
          cases here
          exact ⟨y, rfl, first⟩
      | succ position => exact ih here

/-- A structure of this layout that can be read and stored. -/
structure Structure.IsOperand (layout : Layout) (s : Structure α) : Prop where
  layout_eq : s.layout = layout
  bounded : s.Bounded
  stored : ∃ t, s.flat = .ok t

/-- The work makes a structure of these values, or faults because one of them does. -/
inductive Gathers (asStructure : β → Structure α) (layout : Layout)
    (value : List Nat → Except Fault α) : Except Fault (Except Error β) → Prop
  | returns {made : β} : (asStructure made).IsOperand layout →
      (∀ index, InBounds layout.shape index → (asStructure made).read index = value index) →
      Gathers asStructure layout value (.ok (.ok made))
  | faults {index : List Nat} {stop : Fault} : InBounds layout.shape index →
      value index = .error stop → Gathers asStructure layout value (.error stop)

theorem Tensor.ofArray_eq_ok {layout : Layout} {cells : Array α}
    (count : cells.size = layout.size) :
    ofArray layout cells = .ok (compact layout ⟨cells, count⟩) :=
  dif_pos count

/-- Storing the results of one pass over a list that has an element for each position. -/
theorem Gathers.of_list {layout : Layout} {value : List Nat → Except Fault α} {xs : List β}
    {f : β → Except Fault α} (length : xs.length = layout.size)
    (here : ∀ index x, InBounds layout.shape index →
      xs[rowOffset layout.shape index]? = some x → value index = f x) :
    Gathers Structure.stored layout value
      (xs.mapM f >>= fun ys => .ok (Tensor.ofArray layout ys.toArray)) := by
  cases ran : xs.mapM f with
  | error stop =>
      -- The multi-index of the position where the pass has stopped.
      obtain ⟨before, x, after, rfl, fails, _⟩ := mapM_eq_error ran
      have inside : before.length < layout.size := by
        rw [← length, List.length_append, List.length_cons]
        omega
      have hi := Layout.index_inBounds inside
      refine .faults hi ((here _ x hi ?_).trans fails)
      rw [Layout.rowOffset_index inside, List.getElem?_append_right (Nat.le_refl _), Nat.sub_self]
      rfl
  | ok ys =>
      have along := mapM_eq_ok ran
      have count : ys.toArray.size = layout.size := by
        rw [List.size_toArray, ← along.length_eq, length]
      have bounded := Tensor.bounded_compact layout ⟨ys.toArray, count⟩
      change Gathers _ _ _ (.ok (Tensor.ofArray layout ys.toArray))
      rw [Tensor.ofArray_eq_ok count]
      refine .returns ⟨rfl, bounded, _, rfl⟩ fun index hi => ?_
      have small : rowOffset layout.shape index < xs.length :=
        length ▸ layout.size_eq_product ▸ Layout.rowOffset_lt hi
      obtain ⟨y, there, result⟩ := getElem?_of_forall₂ along (List.getElem?_eq_getElem small)
      rw [here index _ hi (List.getElem?_eq_getElem small), result]
      refine Tensor.read_eq_ok (Tensor.addressable_of_store bounded) hi ?_
      rw [Tensor.toList_cells_compact]
      exact there

theorem Gathers.congr {layout : Layout} {asStructure : β → Structure α}
    {value value' : List Nat → Except Fault α}
    {work : Except Fault (Except Error β)} (h : Gathers asStructure layout value work)
    (same : ∀ index, InBounds layout.shape index → value index = value' index) :
    Gathers asStructure layout value' work := by
  cases h with
  | returns operand reads =>
      exact .returns operand fun index hi => (reads index hi).trans (same index hi)
  | faults hi fails => exact .faults hi ((same _ hi).symm.trans fails)

/-! The passes of the library, in any monad -/

section Run
variable {m : Type → Type} [Monad m] [LawfulMonad m]

/-- An array is passed over like the list of its elements. -/
theorem mapM_bind (xs : Array β) (f : β → m γ) (rest : Array γ → m δ) :
    (xs.mapM f >>= rest) = xs.toList.mapM f >>= fun ys => rest ys.toArray := by
  rw [Array.mapM_eq_mapM_toList, bind_map_left]

theorem run_lift_bind {step : m β} {rest : β → Attempt m γ} :
    (ExceptT.lift step >>= rest).run = step >>= fun x => (rest x).run := by
  rw [ExceptT.run_bind, ExceptT.run_lift, bind_map_left]

theorem Pointwise.map_run (t : Tensor α) (f : α → m β) : (Pointwise.map t f).run =
    t.cells.toList.mapM f >>= fun ys => pure (Tensor.ofArray t.layout ys.toArray) :=
  run_lift_bind.trans (mapM_bind _ _ _)

theorem Pointwise.mapIndexed_run (t : Tensor α) (f : List Nat → α → m β) :
    (Pointwise.mapIndexed t f).run = t.entries.toList.mapM (fun entry => f entry.1 entry.2) >>=
      fun ys => pure (Tensor.ofArray t.layout ys.toArray) :=
  run_lift_bind.trans (mapM_bind _ _ _)

theorem Pointwise.zip_refuses {a : Tensor α} {b : Tensor β} (f : α → β → m γ)
    (different : a.shape ≠ b.shape) :
    (Pointwise.zip a b f).run = pure (.error (.shapeMismatch a.shape b.shape)) := by
  unfold Pointwise.zip
  rw [requireSameShape, if_neg different, ExceptT.run_bind]
  exact pure_bind _ _

theorem Pointwise.zip_run {a : Tensor α} {b : Tensor β} (f : α → β → m γ)
    (same : a.shape = b.shape) : (Pointwise.zip a b f).run =
      (a.cells.toList.zip b.cells.toList).mapM (fun (x, y) => f x y) >>=
      fun ys => pure (Tensor.ofArray a.layout ys.toArray) := by
  unfold Pointwise.zip
  rw [requireSameShape, if_pos same, ExceptT.run_bind]
  refine (pure_bind _ _).trans (run_lift_bind.trans ?_)
  refine (mapM_bind _ _ _).trans ?_
  rw [Array.toList_zip]
  rfl

theorem length_zip_cells {a : Tensor α} {b : Tensor β} (same : a.shape = b.shape) :
    (a.cells.toList.zip b.cells.toList).length = a.layout.size := by
  rw [List.length_zip, Vector.length_toList, Vector.length_toList, Layout.ext_shape same,
    Nat.min_self]

variable [MonadLiftT (Except Fault) m]

theorem Structure.map_run (s : Structure α) (f : α → m α) :
    (s.map f).run = (liftM s.flat : m (Tensor α)) >>= fun t => (Pointwise.map t f).run :=
  run_lift_bind

theorem Structure.zip_run (left right : Structure α) (f : α → α → m α) :
    (left.zip right f).run = (liftM left.flat : m (Tensor α)) >>= fun a =>
      (liftM right.flat : m (Tensor α)) >>= fun b => (Pointwise.zip a b f).run :=
  run_lift_bind.trans (bind_congr fun _ => run_lift_bind)

end Run

/-! What the passes make -/

namespace Pointwise

theorem map_gathers {t : Tensor α} (bounded : t.Bounded) (f : α → Except Fault β) :
    Gathers .stored t.layout (fun index => t.read index >>= f) (Pointwise.map t f).run := by
  rw [map_run]
  refine Gathers.of_list Vector.length_toList fun index x hi here => ?_
  rw [Tensor.read_eq_ok (Tensor.addressable_of_store bounded) hi here]
  rfl

theorem mapIndexed_gathers {t : Tensor α} (bounded : t.Bounded)
    (f : List Nat → α → Except Fault β) :
    Gathers .stored t.layout (fun index => t.read index >>= f index)
      (Pointwise.mapIndexed t f).run := by
  rw [mapIndexed_run]
  refine Gathers.of_list Vector.length_toList fun index entry hi here => ?_
  rw [Tensor.entries, Vector.toList_zip, Structure.toList_indices] at here
  obtain ⟨place, there⟩ := List.getElem?_zip_eq_some.mp here
  obtain rfl : index = entry.1 :=
    Option.some.inj ((Layout.getElem?_multiIndices hi).symm.trans place)
  rw [Tensor.read_eq_ok (Tensor.addressable_of_store bounded) hi there]
  rfl

theorem zip_gathers {a : Tensor α} {b : Tensor β} (bounded : a.Bounded) (bounded' : b.Bounded)
    (same : a.shape = b.shape) (f : α → β → Except Fault γ) :
    Gathers .stored a.layout
      (fun index => a.read index >>= fun x => b.read index >>= fun y => f x y)
      (Pointwise.zip a b f).run := by
  rw [zip_run f same]
  refine Gathers.of_list (length_zip_cells same) fun index pair hi here => ?_
  obtain ⟨left, right⟩ := List.getElem?_zip_eq_some.mp here
  have inside : InBounds b.shape index := same ▸ hi
  have there : b.cells.toList[rowOffset b.shape index]? = some pair.2 := same ▸ right
  rw [Tensor.read_eq_ok (Tensor.addressable_of_store bounded) hi left,
    Tensor.read_eq_ok (Tensor.addressable_of_store bounded') inside there]
  rfl

end Pointwise

/-! Operands of one layout -/

namespace Structure
variable {layout : Layout} {s left right : Structure α}

namespace IsOperand

theorem read_eq (h : s.IsOperand layout) {index : List Nat} (hi : InBounds layout.shape index) :
    ∃ x, s.elements[rowOffset layout.shape index]? = some x ∧ s.read index = .ok x := by
  obtain ⟨rfl, bounded, _⟩ := h
  exact Structure.read_eq bounded hi

/-- The stored tensor is read like the structure. -/
theorem flat_eq (h : s.IsOperand layout) :
    ∃ t, s.flat = .ok t ∧ t.layout = layout ∧ t.Bounded ∧
      ∀ index, InBounds layout.shape index → t.read index = s.read index := by
  obtain ⟨rfl, bounded, t, found⟩ := h
  have like := looksLike_flat found
  refine ⟨t, found, like.layout_eq, like.bounded bounded, fun index hi => ?_⟩
  obtain ⟨x, here, read⟩ := Structure.read_eq bounded hi
  have shapes : t.shape = s.shape := congrArg Layout.shape like.layout_eq
  rw [← like.elements_eq, ← shapes] at here
  have inside : InBounds t.shape index := by rwa [shapes]
  rw [read]
  exact Tensor.read_eq_ok (Tensor.addressable_of_store (like.bounded bounded)) inside here

end IsOperand

theorem map_gathers (h : s.IsOperand layout) (f : α → Except Fault α) :
    Gathers .stored layout (fun index => s.read index >>= f)
      (s.map f : Attempt (Except Fault) (Tensor α)).run := by
  obtain ⟨t, found, rfl, bounded, reads⟩ := h.flat_eq
  rw [map_run, found]
  refine (Pointwise.map_gathers bounded f).congr fun index hi => ?_
  rw [reads index hi]

theorem zip_gathers (hl : left.IsOperand layout) (hr : right.IsOperand layout)
    (f : α → α → Except Fault α) :
    Gathers .stored layout
      (fun index => left.read index >>= fun x => right.read index >>= fun y => f x y)
      (left.zip right f : Attempt (Except Fault) (Tensor α)).run := by
  obtain ⟨a, foundLeft, rfl, boundedLeft, readsLeft⟩ := hl.flat_eq
  obtain ⟨b, foundRight, layouts, boundedRight, readsRight⟩ := hr.flat_eq
  have same : a.shape = b.shape := congrArg Layout.shape layouts.symm
  rw [zip_run, foundLeft, foundRight]
  refine (Pointwise.zip_gathers boundedLeft boundedRight same f).congr fun index hi => ?_
  rw [readsLeft index hi, readsRight index hi]

theorem zip_refuses {a b : Tensor α} (foundLeft : left.flat = .ok a)
    (foundRight : right.flat = .ok b) (different : left.shape ≠ right.shape)
    (f : α → α → Except Fault α) : (left.zip right f : Attempt (Except Fault) (Tensor α)).run =
      .ok (.error (.shapeMismatch left.shape right.shape)) := by
  rw [← shape_of_flat foundLeft, ← shape_of_flat foundRight] at different ⊢
  rw [zip_run, foundLeft, foundRight]
  exact Pointwise.zip_refuses f different

theorem map_faults {fault : Fault} (missing : s.flat = .error fault) (f : α → Except Fault α) :
    (s.map f : Attempt (Except Fault) (Tensor α)).run = .error .noRoom := by
  rw [map_run, missing, flat_faults missing]
  rfl

theorem zip_faults {fault : Fault} (missing : left.flat = .error fault ∨ right.flat = .error fault)
    (f : α → α → Except Fault α) :
    (left.zip right f : Attempt (Except Fault) (Tensor α)).run = .error .noRoom := by
  rw [zip_run]
  rcases missing with missing | missing
  · rw [missing, flat_faults missing]
    rfl
  · rcases found : left.flat with other | a
    · rw [flat_faults found]
      rfl
    · rw [missing, flat_faults missing]
      rfl

end Structure

/-- A tensor of one value. -/
theorem Tensor.filled_gathers {layout : Layout} (room : layout.size < Word.room) (value : α) :
    Gathers .stored layout (fun _ => .ok value)
      (ExceptT.lift (filled layout.shape value) : Attempt (Except Fault) (Tensor α)).run := by
  have ran : filled layout.shape value = .ok (filledLike layout value) := by
    rw [filled, Layout.forStore_self room]
    rfl
  rw [ran]
  have bounded : (filledLike layout value).Bounded := bounded_compact layout _
  refine .returns ⟨rfl, bounded, filledLike layout value, rfl⟩ fun index hi => ?_
  refine read_eq_ok (addressable_of_store bounded) hi ?_
  rw [toList_cells_filledLike]
  exact List.getElem?_replicate_of_lt (layout.size_eq_product ▸ Layout.rowOffset_lt hi)

end RowMajor

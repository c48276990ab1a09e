import Mathlib
import RowMajor.Proofs.Pointwise.Assign
import RowMajor.Proofs.Tensor.Tiling

/-! One pass, many forms. Applying a function to all elements of a tensor has the same results
whether they make a new tensor, go to a target or replace the elements, and so has combining two
tensors. The function may have any effects; they happen in row-major order. -/
namespace RowMajor
variable {α β γ : Type}

section Run
variable {m : Type → Type} [Monad m] [LawfulMonad m]

/-- As many results as there are positions make a tensor. -/
theorem pass_ofArray {layout : Layout} (xs : Vector β layout.size) (f : β → m γ) :
    (xs.toList.mapM f >>= fun ys => pure (Tensor.ofArray layout ys.toArray)) =
      Except.ok <$> do return Tensor.compact layout (← xs.mapM f) := by
  have fits (cells : Vector γ layout.size) :
      Tensor.ofArray layout cells.toArray = .ok (.compact layout cells) :=
    Tensor.ofArray_eq_ok cells.size_toArray
  have arrays := mapM_bind xs.toArray f fun ys => pure (Tensor.ofArray layout ys)
  rw [← Vector.toArray_mapM, bind_map_left] at arrays
  simp only [fits] at arrays
  simp only [map_bind, map_pure]
  exact arrays.symm

namespace Pointwise

theorem map_eq (t : Tensor α) (f : α → m β) : (Pointwise.map t f).run = Except.ok <$> t.mapM f := by
  rw [map_run]
  exact pass_ofArray t.cells f

theorem mapIndexed_eq (t : Tensor α) (f : List Nat → α → m β) :
    (Pointwise.mapIndexed t f).run = Except.ok <$> t.mapIndexedM f := by
  rw [mapIndexed_run]
  exact pass_ofArray t.entries fun entry => f entry.1 entry.2

theorem zipWithM_run {a : Tensor α} {b : Tensor β} (f : α → β → m γ) (same : a.layout = b.layout) :
    (a.zipWithM b f).run = Except.ok <$> do
      let pairs := a.cells.zip (b.cells.cast (congrArg Layout.size same.symm))
      return Tensor.compact a.layout (← pairs.mapM fun pair => f pair.1 pair.2) := by
  rw [Tensor.zipWithM, dif_pos same]
  simp only [map_bind, map_pure]
  exact run_lift_bind

/-- Comparing shapes and comparing layouts refuses the same tensors. -/
theorem zip_eq (a : Tensor α) (b : Tensor β) (f : α → β → m γ) :
    (Pointwise.zip a b f).run = (a.zipWithM b f).run := by
  by_cases same : a.shape = b.shape
  · have layouts : a.layout = b.layout := Layout.ext_shape same
    let pairs := a.cells.zip (b.cells.cast (congrArg Layout.size layouts.symm))
    have list : pairs.toList = a.cells.toList.zip b.cells.toList := by
      rw [Vector.toList_zip, Vector.toList_cast]
    rw [zip_run f same, zipWithM_run f layouts, ← list]
    exact pass_ofArray pairs fun pair => f pair.1 pair.2
  · have layouts : a.layout ≠ b.layout := fun layouts => same (congrArg Layout.shape layouts)
    rw [zip_refuses f same, Tensor.zipWithM, dif_neg layouts]
    rfl

/-! Targets of the same shape -/

theorem mapInto_run {t : Tensor α} {target : Tensor β} (f : α → m β)
    (same : target.shape = t.shape) : (Pointwise.mapInto t f).run.run target =
      target.takeOver <$> (Pointwise.map t f).run := by
  unfold Pointwise.mapInto
  rw [run_get_bind, run_check_bind, requireSameShape, if_pos same, map_run,
    ← takeOver_pass (Layout.ext_shape same) Vector.length_toList]
  exact run_pass _ f (target.splice 0) target

theorem zipInto_run {a : Tensor α} {b : Tensor β} {target : Tensor γ} (f : α → β → m γ)
    (same : target.shape = a.shape) : (Pointwise.zipInto a b f).run.run target =
      target.takeOver <$> (Pointwise.zip a b f).run := by
  unfold Pointwise.zipInto
  rw [run_get_bind, run_check_bind, requireSameShape, if_pos same]
  refine (run_check_bind _ _ _).trans ?_
  by_cases alike : a.shape = b.shape
  · rw [zip_run f alike, ← takeOver_pass (Layout.ext_shape same) (length_zip_cells alike),
      requireSameShape, if_pos alike]
    refine (run_pass _ _ (target.splice 0) target).trans ?_
    rw [Array.toList_zip]
    rfl
  · rw [zip_refuses f alike, requireSameShape, if_neg alike, map_pure]
    rfl

/-! Tensors of the same contents -/

theorem map_congr {t s : Tensor α} (same : s.SameContents t) (f : α → m β) :
    (Pointwise.map s f).run = (Pointwise.map t f).run := by
  rw [map_run, map_run, same.cells_eq, Layout.ext_shape same.shape_eq]

theorem mapIndexed_congr {t s : Tensor α} (same : s.SameContents t) (f : List Nat → α → m β) :
    (Pointwise.mapIndexed s f).run = (Pointwise.mapIndexed t f).run := by
  have layouts : s.layout = t.layout := Layout.ext_shape same.shape_eq
  have entries : s.entries.toList = t.entries.toList := by
    rw [Tensor.entries, Tensor.entries, Vector.toList_zip, Vector.toList_zip,
      Structure.toList_indices, Structure.toList_indices, same.cells_eq, layouts]
  rw [mapIndexed_run, mapIndexed_run, entries, layouts]

theorem zip_congr {a s : Tensor α} (same : s.SameContents a) (b : Tensor β) (f : α → β → m γ) :
    (Pointwise.zip s b f).run = (Pointwise.zip a b f).run := by
  by_cases alike : a.shape = b.shape
  · rw [zip_run f alike, zip_run f (same.shape_eq.trans alike), same.cells_eq,
      Layout.ext_shape same.shape_eq]
  · rw [zip_refuses f alike, zip_refuses f (same.shape_eq ▸ alike), same.shape_eq]

theorem updateM_run (t : Tensor α) (f : List Nat → α → m α) :
    (fun after => (.ok (), after)) <$> t.updateM f =
      t.takeOver <$> (Pointwise.mapIndexed t f).run := by
  rw [mapIndexed_eq, Tensor.updateM, Tensor.mapIndexedM]
  simp only [map_bind, map_pure, Tensor.takeOver, Tensor.cells_compact]
  rfl

end Pointwise
end Run

/-- The forms of each pass, whatever effects the function has: making a tensor, by either of two
implementations, writing to a target of the same shape, and replacing the elements of a tensor with
the same contents. -/
structure PassesAgree (m : Type → Type) [Monad m] : Prop where
  map : ∀ {α β : Type} (t : Tensor α) (f : α → m β),
    (Pointwise.map t f).run = Except.ok <$> t.mapM f
  mapInto : ∀ {α β : Type} {t : Tensor α} {target : Tensor β} (f : α → m β),
    target.shape = t.shape →
      (Pointwise.mapInto t f).run.run target = target.takeOver <$> (Pointwise.map t f).run
  mapAssign : ∀ {α : Type} {t s : Tensor α} (f : α → m α), s.SameContents t →
    (Pointwise.mapAssign f).run.run s = s.takeOver <$> (Pointwise.map t f).run
  mapIndexed : ∀ {α β : Type} (t : Tensor α) (f : List Nat → α → m β),
    (Pointwise.mapIndexed t f).run = Except.ok <$> t.mapIndexedM f
  updateM : ∀ {α : Type} {t s : Tensor α} (f : List Nat → α → m α), s.SameContents t →
    (fun after => (.ok (), after)) <$> s.updateM f =
      s.takeOver <$> (Pointwise.mapIndexed t f).run
  /-- Both refuse the same operands with the same refusal. -/
  zip : ∀ {α β γ : Type} (a : Tensor α) (b : Tensor β) (f : α → β → m γ),
    (Pointwise.zip a b f).run = (a.zipWithM b f).run
  zipInto : ∀ {α β γ : Type} {a : Tensor α} {b : Tensor β} {target : Tensor γ} (f : α → β → m γ),
    target.shape = a.shape →
      (Pointwise.zipInto a b f).run.run target = target.takeOver <$> (Pointwise.zip a b f).run
  zipAssign : ∀ {α β : Type} {a s : Tensor α} {b : Tensor β} (f : α → β → m α),
    s.SameContents a →
      (Pointwise.zipAssign b f).run.run s = s.takeOver <$> (Pointwise.zip a b f).run
  refuses : ∀ {α β γ : Type} {a : Tensor α} {b : Tensor β} (f : α → β → m γ), a.shape ≠ b.shape →
    (Pointwise.zip a b f).run = pure (.error (.shapeMismatch a.shape b.shape))
  accepts : ∀ {α β γ : Type} {a : Tensor α} {b : Tensor β} (f : α → β → m γ), a.shape = b.shape →
    ∃ results : m (Tensor γ), (Pointwise.zip a b f).run = Except.ok <$> results

theorem passesAgree (m : Type → Type) [Monad m] [LawfulMonad m] : PassesAgree m where
  map := Pointwise.map_eq
  mapInto := Pointwise.mapInto_run
  mapAssign f same := by rw [Pointwise.mapAssign_run, Pointwise.map_congr same]
  mapIndexed := Pointwise.mapIndexed_eq
  updateM f same := by rw [Pointwise.updateM_run, Pointwise.mapIndexed_congr same]
  zip := Pointwise.zip_eq
  zipInto := Pointwise.zipInto_run
  zipAssign f same := by rw [Pointwise.zipAssign_run, Pointwise.zip_congr same]
  refuses := Pointwise.zip_refuses
  accepts {_ _ _ a b} f same :=
    ⟨_, (Pointwise.zip_eq a b f).trans (Pointwise.zipWithM_run f (Layout.ext_shape same))⟩

/-- What the passes make, and what a target becomes. -/
structure PassesGather : Prop where
  map : ∀ {α β : Type} {t : Tensor α} (f : α → Except Fault β), t.Bounded →
    Gathers .stored t.layout (fun index => t.read index >>= f) (Pointwise.map t f).run
  mapIndexed : ∀ {α β : Type} {t : Tensor α} (f : List Nat → α → Except Fault β), t.Bounded →
    Gathers .stored t.layout (fun index => t.read index >>= f index)
      (Pointwise.mapIndexed t f).run
  zip : ∀ {α β γ : Type} {a : Tensor α} {b : Tensor β} (f : α → β → Except Fault γ), a.Bounded →
    b.Bounded → a.shape = b.shape → Gathers .stored a.layout
      (fun index => a.read index >>= fun x => b.read index >>= fun y => f x y)
      (Pointwise.zip a b f).run
  /-- Only its own elements change. -/
  takeOver : ∀ {α : Type} {target made : Tensor α}, made.shape = target.shape →
    ∃ after, target.takeOver (.ok made) = (.ok (), after) ∧ target.StaysInPlace after ∧
      after.SameContents made
  refuse : ∀ {α : Type} (target : Tensor α) (refusal : Error),
    target.takeOver (.error refusal) = (.error refusal, target)

theorem passes_areOne :
    (∀ (m : Type → Type) [Monad m] [LawfulMonad m], PassesAgree m) ∧ PassesGather := by
  refine ⟨fun m _ _ => passesAgree m, ?_⟩
  constructor
  · exact fun f bounded => Pointwise.map_gathers bounded f
  · exact fun f bounded => Pointwise.mapIndexed_gathers bounded f
  · exact fun f bounded bounded' same => Pointwise.zip_gathers bounded bounded' same f
  · exact fun same => takeOver_spec (Layout.ext_shape same)
  · exact fun _ _ => rfl

def countdown : Tensor Nat :=
  ⟨Layout.unequalSizes, #[7, 11, 10, 9, 8, 7, 6, 5, 4, 3, 2, 1, 0], 1, by decide⟩

/-- A function that does not have a value everywhere. -/
def difference (x y : Nat) : Except Fault Nat :=
  if y ≤ x then .ok (x - y) else .error (.overflow .add)

theorem passes_areOne_amidOthers :
    (Pointwise.zipInto countdown Tensor.amidOthers difference).run.run Tensor.amidOthers.copy =
      Tensor.amidOthers.copy.takeOver <$> (countdown.zipWithM Tensor.amidOthers difference).run ∧
    (Pointwise.mapAssign (difference 9)).run.run Tensor.amidOthers =
      Tensor.amidOthers.takeOver <$> (Pointwise.map Tensor.amidOthers.copy (difference 9)).run ∧
    Gathers .stored Layout.unequalSizes
      (fun index => countdown.read index >>= fun x => Tensor.amidOthers.read index >>= difference x)
      (Pointwise.zip countdown Tensor.amidOthers difference).run := by
  obtain ⟨agree, gather⟩ := passes_areOne
  have passes := agree (Except Fault)
  have left : countdown.Bounded := by
    show 13 < Word.bound
    decide
  have right : Tensor.amidOthers.Bounded := by
    show 15 < Word.bound
    decide
  refine ⟨?_, ?_, gather.zip difference left right rfl⟩
  · rw [← passes.zip]
    exact passes.zipInto difference rfl
  · exact passes.mapAssign (difference 9) Tensor.amidOthers.sameContents_copy.1

end RowMajor

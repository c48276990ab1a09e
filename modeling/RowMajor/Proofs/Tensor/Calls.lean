import Mathlib
import RowMajor.Proofs.Structure.Elements
import RowMajor.Proofs.Tensor.History

/-! The calls of a pass. A function that keeps a state can tell how often it is called, in which
order and with what. Every pass calls it once for each multi-index, in lexicographic order, and
its results become the elements there; a pass that replaces elements reads each of them before
anything is written in its place. -/
namespace RowMajor
open Layout (InBounds rowOffset)
variable {ι α β σ : Type}

section Calls
variable (f : ι → Callback σ β)

/-- The function is called on these arguments in turn, each time with the state that the call
before has left. -/
inductive Calls : σ → List ι → List β → σ → Prop
  | nil {s : σ} : Calls s [] [] s
  | cons {s s' s'' : σ} {i : ι} {y : β} {args : List ι} {ys : List β} :
      (f i).run s = .ok (y, s') → Calls s' args ys s'' → Calls s (i :: args) (y :: ys) s''

/-- A call among those on these arguments faults, and none is made after it. -/
inductive CallsFault : σ → List ι → Fault → Prop
  | here {s : σ} {i : ι} {args : List ι} {fault : Fault} :
      (f i).run s = .error fault → CallsFault s (i :: args) fault
  | later {s s' : σ} {i : ι} {y : β} {args : List ι} {fault : Fault} :
      (f i).run s = .ok (y, s') → CallsFault s' args fault → CallsFault s (i :: args) fault

end Calls

variable {f : ι → Callback σ β}

theorem run_mapM_cons (s : σ) (i : ι) (args : List ι) :
    ((i :: args).mapM f).run s = (f i).run s >>= fun (y, s') =>
      (args.mapM f).run s' >>= fun (ys, s'') => pure (y :: ys, s'') := by
  rw [List.mapM_cons]
  rfl

theorem Calls.run_mapM {s s' : σ} {args : List ι} {ys : List β} (h : Calls f s args ys s') :
    (args.mapM f).run s = .ok (ys, s') := by
  induction h with
  | nil => rfl
  | @cons s s' s'' i y args ys here _ ih =>
      rw [run_mapM_cons, here]
      change ((args.mapM f).run s' >>= fun (ys, s'') => pure (y :: ys, s'')) = _
      rw [ih]
      rfl

theorem CallsFault.run_mapM {s : σ} {args : List ι} {fault : Fault}
    (h : CallsFault f s args fault) : (args.mapM f).run s = .error fault := by
  induction h with
  | here fails =>
      rw [run_mapM_cons, fails]
      rfl
  | @later s s' i y args fault here _ ih =>
      rw [run_mapM_cons, here]
      change ((args.mapM f).run s' >>= fun (ys, s'') => pure (y :: ys, s'')) = _
      rw [ih]
      rfl

/-- All calls are made, or one of them is the last. -/
theorem calls_or_fault (f : ι → Callback σ β) (s : σ) (args : List ι) :
    (∃ ys s', Calls f s args ys s') ∨ ∃ fault, CallsFault f s args fault := by
  induction args generalizing s with
  | nil => exact .inl ⟨[], s, .nil⟩
  | cons i args ih =>
      rcases here : (f i).run s with fault | ⟨y, s'⟩
      · exact .inr ⟨fault, .here here⟩
      · rcases ih s' with ⟨ys, s'', later⟩ | ⟨fault, later⟩
        · exact .inl ⟨y :: ys, s'', .cons here later⟩
        · exact .inr ⟨fault, .later here later⟩

/-! Passes -/

/-- A tensor has the results of the calls, the `n`-th result at the `n`-th multi-index. -/
structure HasResults (t : Tensor β) (layout : Layout) (ys : List β) : Prop where
  layout_eq : t.layout = layout
  count_eq : ys.length = layout.size
  cells_eq : t.cells.toList = ys
  read : ∀ (n : Nat) index y, layout.multiIndices[n]? = some index → ys[n]? = some y →
    t.read index = .ok y

/-- The work is these calls, one for each element. Where one of them faults, so does the work. -/
structure IsPass (work : Callback σ (Tensor β)) (layout : Layout) (f : ι → Callback σ β)
    (args : List ι) : Prop where
  returns : ∀ s ys s', Calls f s args ys s' → ∃ t, work.run s = .ok (t, s') ∧ HasResults t layout ys
  faults : ∀ s fault, CallsFault f s args fault → work.run s = .error fault
  covers : ∀ s, (∃ ys s', Calls f s args ys s') ∨ ∃ fault, CallsFault f s args fault

theorem toList_mapM {m : Type → Type} [Monad m] [LawfulMonad m] {n : Nat} (xs : Vector ι n)
    (f : ι → m β) : Vector.toList <$> xs.mapM f = xs.toList.mapM f := by
  have arrays : Vector.toArray <$> xs.mapM f = List.toArray <$> xs.toArray.toList.mapM f := by
    rw [Vector.toArray_mapM, Array.mapM_eq_mapM_toList]
  have lists := congrArg (Array.toList <$> ·) arrays
  simp only [Functor.map_map, id_map'] at lists
  exact lists

theorem hasResults_of_cells {t : Tensor β} (addressable : t.Addressable) :
    HasResults t t.layout t.cells.toList where
  layout_eq := rfl
  count_eq := Vector.length_toList
  cells_eq := rfl
  read n index y place here := by
    obtain ⟨small, rfl⟩ := Layout.multiIndices_found place
    apply Tensor.read_eq_ok addressable (Layout.index_inBounds small)
    rwa [Tensor.shape, Layout.rowOffset_index small]

/-- A pass over a vector whose results are made into a tensor. -/
theorem isPass_vector {layout : Layout} (f : ι → Callback σ β) (xs : Vector ι layout.size)
    (make : Vector β layout.size → Tensor β)
    (made : ∀ cells, HasResults (make cells) layout cells.toList) :
    IsPass (do return make (← xs.mapM f)) layout f xs.toList := by
  have lists (s : σ) : (xs.toList.mapM f).run s =
      (fun r => (r.1.toList, r.2)) <$> (xs.mapM f).run s := by
    rw [← toList_mapM, StateT.run_map]
  have work (s : σ) : (do return make (← xs.mapM f) : Callback σ (Tensor β)).run s =
      (xs.mapM f).run s >>= fun r => pure (make r.1, r.2) := rfl
  refine ⟨fun s ys s' calls => ?_, fun s fault fails => ?_, fun s => calls_or_fault f s xs.toList⟩
  · have ran := calls.run_mapM
    rw [lists] at ran
    rcases found : (xs.mapM f).run s with fault | ⟨cells, last⟩
    · rw [found] at ran
      cases ran
    · rw [found] at ran
      cases ran
      refine ⟨make cells, ?_, made cells⟩
      rw [work, found]
      rfl
  · have ran := fails.run_mapM
    rw [lists] at ran
    rcases found : (xs.mapM f).run s with other | r
    · rw [found] at ran
      cases ran
      rw [work, found]
      rfl
    · rw [found] at ran
      cases ran

namespace Tensor

theorem hasResults_compact {layout : Layout} (cells : Vector β layout.size) :
    HasResults (compact layout cells) layout cells.toList := by
  have results := hasResults_of_cells (addressable_compact layout cells)
  rwa [toList_cells_compact] at results

theorem generate_isPass {layout : Layout} (room : layout.size < Word.room)
    (f : List Nat → Callback σ β) : IsPass (generate layout f) layout f layout.multiIndices := by
  have whole : generate layout f = generateLike layout f := by
    rw [generate, Word.requireRoom_eq_ok.mpr room]
  rw [whole, ← Structure.toList_indices]
  exact isPass_vector f layout.indices (compact layout) hasResults_compact

/-- A new tensor of this shape. -/
def ofFunction (shape : List Nat) (f : List Nat → Callback σ β) : Callback σ (Tensor β) := do
  generate (← Layout.ofShape shape) f

theorem ofFunction_self (layout : Layout) (f : List Nat → Callback σ β) :
    ofFunction layout.shape f = generate layout f := by
  rw [ofFunction, Layout.ofShape_self]
  rfl

theorem ofFunction_isPass {shape : List Nat} {layout : Layout}
    (made : Layout.forStore shape = .ok layout) (f : List Nat → Callback σ β) :
    IsPass (ofFunction shape f) layout f layout.multiIndices := by
  obtain ⟨rfl, room⟩ := Layout.forStore_eq_ok made
  rw [ofFunction_self]
  exact generate_isPass room f

theorem bounded_ofFunction {shape : List Nat} {f : List Nat → Callback σ β} {s s' : σ}
    {t : Tensor β} (ran : (ofFunction shape f).run s = .ok (t, s')) : t.Bounded := by
  rw [ofFunction] at ran
  cases made : Layout.ofShape shape with
  | error fault =>
      rw [made] at ran
      cases ran
  | ok layout =>
      rw [made] at ran
      exact bounded_generate ran

/-- The function is not called for a tensor that cannot be made. -/
theorem ofFunction_refuses {shape : List Nat} {fault : Fault}
    (refused : Layout.forStore shape = .error fault) (f : List Nat → Callback σ β) (s : σ) :
    (ofFunction shape f).run s = .error fault := by
  rw [ofFunction]
  unfold Layout.forStore at refused
  cases made : Layout.ofShape shape with
  | error found =>
      rw [made] at refused
      cases refused
      rfl
  | ok layout =>
      rw [made] at refused
      cases room : Word.requireRoom layout.size with
      | error found =>
          simp only [bind, Except.bind, room] at refused
          cases refused
          change (generate layout f).run s = _
          rw [generate, room]
          rfl
      | ok =>
          simp only [bind, Except.bind, room] at refused
          cases refused

theorem mapIndexedM_isPass (t : Tensor α) (f : List Nat → α → Callback σ β) :
    IsPass (t.mapIndexedM f) t.layout (fun entry => f entry.1 entry.2) t.entries.toList :=
  isPass_vector _ t.entries (compact t.layout) hasResults_compact

theorem updateM_isPass {t : Tensor α} (h : t.Addressable) (f : List Nat → α → Callback σ α) :
    IsPass (t.updateM f) t.layout (fun entry => f entry.1 entry.2) t.entries.toList := by
  refine isPass_vector _ t.entries t.overwrite fun cells => ?_
  have there : (t.overwrite cells).Addressable := h
  have results := hasResults_of_cells there
  rwa [cells_overwrite] at results

/-! Replacing elements one by one -/

/-- Each element is read when its turn comes, and its result is written in its place before the
next one is read. -/
def rewriteFrom (t : Tensor α) (f : List Nat → α → Callback σ α) :
    List (List Nat) → Callback σ (Tensor α)
  | [] => return t
  | index :: rest => do
    let y ← f index (← t.read index)
    rewriteFrom (← t.write index y) f rest

theorem getElem_cells_put (t : Tensor α) (position : Nat) (y : α) {i : Nat}
    (_ : i < t.layout.size) (_ : i < (t.put position y).layout.size) :
    (t.put position y).cells[i] = if position = i then y else t.cells[i] := by
  have inside : i < (t.put position y).cells.toList.length := by rwa [Vector.length_toList]
  have listed := List.getElem_of_eq (t.toList_cells_put position y) inside
  rw [List.getElem_set, Vector.getElem_toList, Vector.getElem_toList] at listed
  exact listed

theorem splice_nil (t : Tensor α) (position : Nat) : t.splice position [].toArray = t := by
  refine (t.agreesAround_splice position _).unique (AgreesAround.refl t) (congrArg Vector.toList ?_)
  apply Vector.ext
  intro i h
  have small : i < t.layout.size := h
  refine (t.getElem_cells_splice position _ small).trans ?_
  split <;> rfl

theorem splice_cons (t : Tensor α) {position : Nat} (h : position < t.layout.size) (y : α)
    (ys : List α) :
    (t.put position y).splice (position + 1) ys.toArray = t.splice position (y :: ys).toArray := by
  have around := (t.agreesAround_put h y).trans (agreesAround_splice _ (position + 1) ys.toArray)
  refine around.unique (t.agreesAround_splice position _) (congrArg Vector.toList ?_)
  apply Vector.ext
  intro i hi
  have small : i < t.layout.size := hi
  have small' : i < (t.put position y).layout.size := hi
  refine ((t.put position y).getElem_cells_splice (position + 1) _ small').trans ?_
  refine Eq.trans ?_ (t.getElem_cells_splice position _ small).symm
  rw [t.getElem_cells_put position y small small']
  rcases Nat.lt_trichotomy i position with before | rfl | after
  · rw [if_neg (by omega), if_neg (by omega), if_neg (by omega)]
    rfl
  · rw [if_neg (by omega), if_pos rfl, if_pos (Nat.le_refl _), Nat.sub_self]
    rfl
  · obtain ⟨k, rfl⟩ := Nat.exists_eq_add_of_lt after
    have here : position + k + 1 - position = k + 1 := by omega
    have there : position + k + 1 - (position + 1) = k := by omega
    have left : position + 1 ≤ position + k + 1 := by omega
    have right : position ≤ position + k + 1 := by omega
    rw [if_pos left, if_neg (by omega), if_pos right, here, there]
    simp only [Array.getD, List.size_toArray, List.length_cons, Nat.add_lt_add_iff_right]
    rfl

theorem rewriteFrom_eq {t : Tensor α} (h : t.Addressable) (f : List Nat → α → Callback σ α)
    {position count : Nat} (fits : position + count = t.layout.size) :
    t.rewriteFrom f ((List.range' position count).map t.layout.index) = do
      let ys ← (((List.range' position count).map t.layout.index).zip
        (t.cells.toList.drop position)).mapM fun entry => f entry.1 entry.2
      return t.splice position ys.toArray := by
  induction count generalizing position t with
  | zero => exact congrArg pure (t.splice_nil position).symm
  | succ count ih =>
      have small : position < t.layout.size := by omega
      have inside : position < t.cells.toList.length := by rwa [Vector.length_toList]
      have place := Layout.rowOffset_index small
      have bounds : InBounds t.shape (t.layout.index position) := Layout.index_inBounds small
      have read : t.read (t.layout.index position) = .ok t.cells.toList[position] :=
        read_eq_ok h bounds (by rw [shape, place]; exact List.getElem?_eq_getElem inside)
      have written (y : α) : t.write (t.layout.index position) y = .ok (t.put position y) := by
        rw [write_eq h bounds, shape, place]
      have later (y : α) : (t.put position y).cells.toList.drop (position + 1) =
          t.cells.toList.drop (position + 1) := by
        rw [toList_cells_put, List.drop_set_of_lt (Nat.lt_succ_self position)]
      rw [List.range'_succ, List.map_cons, List.drop_eq_getElem_cons inside, List.zip_cons_cons,
        List.mapM_cons, rewriteFrom, read]
      have found : (liftM (.ok t.cells.toList[position] : Except Fault α) : Callback σ α) =
        pure t.cells.toList[position] := rfl
      simp only [found, bind_assoc, pure_bind]
      refine bind_congr fun y => ?_
      rw [written]
      have there : (t.put position y).Addressable := h
      have rest := ih there (by change position + 1 + count = t.layout.size; omega)
      rw [later] at rest
      refine Eq.trans rest ?_
      simp only [splice_cons t small]
      rfl

/-- Replacing all elements at once is replacing them one by one. -/
theorem updateM_eq {t : Tensor α} (h : t.Addressable) (f : List Nat → α → Callback σ α) :
    t.updateM f = t.rewriteFrom f t.layout.multiIndices := by
  have stepwise := rewriteFrom_eq h f (Nat.zero_add t.layout.size)
  rw [← List.range_eq_range', ← Layout.multiIndices, List.drop_zero] at stepwise
  rw [stepwise, ← Structure.toList_indices, ← Vector.toList_zip, ← entries, ← toList_mapM,
    bind_map_left]
  rfl

theorem agreesAround_updateM {t t' : Tensor α} {f : List Nat → α → Callback σ α} {s s' : σ}
    (ran : (t.updateM f).run s = .ok (t', s')) : t.AgreesAround t' := by
  obtain ⟨cells, rfl⟩ := run_map_found ran
  exact t.agreesAround_splice 0 cells.toArray

end Tensor

end RowMajor

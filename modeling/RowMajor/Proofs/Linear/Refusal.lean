import Mathlib
import RowMajor.Matrix.Window
import RowMajor.Proofs.Linear.Outcome

/-! Operations that check shapes before they do anything else. Such a call is a chain of
checks with the work at its end: a check that fails ends the call where it began. -/
namespace RowMajor
variable {σ β γ : Type}

/-- What an operation says about shapes that it cannot work on. -/
def Error.IsAboutShapes : Error → Prop
  | .shapeMismatch .. | .rankMismatch .. | .nonSquare .. => True
  | .bufferLength .. | .notSymmetric _ | .notConverged .. | .lookup _ => False

def IsShapeRefusal : Except Error β → Prop
  | .ok _ => False
  | .error refusal => refusal.IsAboutShapes

/-- A check that looks at shapes only. -/
def ChecksShapes (check : Except Error γ) : Prop :=
  ∀ refusal, check = .error refusal → refusal.IsAboutShapes

theorem ChecksShapes.bind {first : Except Error β} {rest : β → Except Error γ}
    (h : ChecksShapes first) (later : ∀ value, ChecksShapes (rest value)) :
    ChecksShapes (first >>= rest) := by
  intro refusal ends
  cases found : first with
  | error other =>
      rw [found] at ends
      cases ends
      exact h _ found
  | ok value =>
      rw [found] at ends
      exact later value refusal ends

/-- A single test, of which the check returns the evidence. -/
theorem ChecksShapes.ite {fits : Prop} [Decidable fits] {pass : fits → γ} {refusal : Error}
    (about : refusal.IsAboutShapes) :
    ChecksShapes (if h : fits then .ok (pass h) else .error refusal) := by
  intro _ ends
  split at ends
  · cases ends
  · cases ends
    exact about

theorem requireMatrix_checksShapes (shape : List Nat) : ChecksShapes (requireMatrix shape) := by
  intro refusal h
  unfold requireMatrix at h
  split at h
  · cases h
  · cases h
    trivial

theorem requireSquare_checksShapes (shape : List Nat) : ChecksShapes (requireSquare shape) :=
  ChecksShapes.bind (requireMatrix_checksShapes shape) fun _ => ChecksShapes.ite trivial

theorem requireShape_checksShapes (actual expected : List Nat) :
    ChecksShapes (requireShape actual expected) :=
  ChecksShapes.ite trivial

namespace InPlace

/-- The call on this target and log breaks off with a fault. -/
def Faults (operation : InPlace σ Run β) (target : σ) (log : Log) (fault : Fault) (later : Log) :
    Prop :=
  (operation.run.run target).run.run log = (.error fault, later)

theorem Ends.not_faults {operation : InPlace σ Run β} {target after : σ} {log later last : Log}
    {result : Except Error β} {fault : Fault} (h : Ends operation target log result after later) :
    ¬ Faults operation target log fault last := by
  intro h'
  cases h.symm.trans h'

theorem Faults.unique {operation : InPlace σ Run β} {target : σ} {log later last : Log}
    {fault other : Fault} (h : Faults operation target log fault later)
    (h' : Faults operation target log other last) : other = fault := by
  have same := h.symm.trans h'
  cases same
  rfl

/-- A composed call breaks off as its rest does once its first part has succeeded. -/
theorem Faults.bind {first : InPlace σ Run β} {rest : β → InPlace σ Run γ} {target between : σ}
    {log middle later : Log} {value : β} {fault : Fault}
    (h : Ends first target log (.ok value) between middle)
    (next : Faults (rest value) between middle fault later) :
    Faults (first >>= rest) target log fault later := by
  simp only [Ends, Faults, ExceptT.run_bind, StateT.run_bind] at h next ⊢
  rw [h]
  exact next

/-- A composed call breaks off where its first part does. -/
theorem Faults.first {first : InPlace σ Run β} {rest : β → InPlace σ Run γ} {target : σ}
    {log later : Log} {fault : Fault} (h : Faults first target log fault later) :
    Faults (first >>= rest) target log fault later := by
  simp only [Faults, ExceptT.run_bind, StateT.run_bind] at h ⊢
  rw [h]
  rfl

section Work
variable {m : Type → Type} [Monad m] [LawfulMonad m]

/-- Work that knows nothing of the target. -/
theorem run_work (work : m β) (target : σ) :
    (liftM work : InPlace σ m β).run.run target = (Except.ok ·, target) <$> work := by
  change (do
    let pair ← (do let value ← work; pure (value, target))
    pure (Except.ok pair.1, pair.2)) = _
  simp

theorem run_work_bind (work : m γ) (rest : γ → InPlace σ m β) (target : σ) :
    ((liftM work : InPlace σ m γ) >>= rest).run.run target =
      work >>= fun value => (rest value).run.run target := by
  rw [ExceptT.run_bind, StateT.run_bind, run_work, bind_map_left]

end Work

theorem Ends.work {work : Run β} {target : σ} {log later : Log} {value : β}
    (h : work.run.run log = (.ok value, later)) :
    Ends (liftM work) target log (.ok value) target later := by
  rw [Ends, run_work, ExceptT.run_map, StateT.run_map, h]
  rfl

theorem Faults.work {work : Run β} {target : σ} {log later : Log} {fault : Fault}
    (h : work.run.run log = (.error fault, later)) :
    Faults (liftM work) target log fault later := by
  rw [Faults, run_work, ExceptT.run_map, StateT.run_map, h]
  rfl

/-- Calls whose target outlives a fault, so that it shows what has been written by then. -/
abbrev Kept (σ : Type) := ExceptT Error (ExceptT Fault (StateT σ (StateM Log)))

instance : MonadLift Run (Kept σ) :=
  ⟨fun work => ExceptT.lift (ExceptT.mk (StateT.lift work.run))⟩

/-- The call breaks off with a fault and has left the target as it was. -/
def Kept.FaultsUnwritten (operation : Kept σ β) (target : σ) (log : Log) (fault : Fault)
    (later : Log) : Prop :=
  (operation.run.run.run target).run log = ((.error fault, target), later)

theorem Kept.faultsUnwritten_work {work : Run γ} {rest : γ → Kept σ β} {target : σ}
    {log later : Log} {fault : Fault} (h : work.run.run log = (.error fault, later)) :
    Kept.FaultsUnwritten (liftM work >>= rest) target log fault later := by
  have lifted : ((liftM work : Kept σ γ).run.run.run target).run log =
      ((.error fault, target), later) := by
    change ((ExceptT.lift (ExceptT.mk (StateT.lift work.run)) : Kept σ γ).run.run.run target).run
      log = _
    rw [ExceptT.run_lift, ExceptT.run_map, ExceptT.run_mk, StateT.run_map, StateT.run_lift,
      StateT.run_map, StateT.run_bind, h]
    rfl
  rw [Kept.FaultsUnwritten, ExceptT.run_bind, ExceptT.run_bind, StateT.run_bind, StateT.run_bind,
    lifted]
  rfl

/-- The call is refused for its shapes and leaves everything as it is. -/
def Refuses (operation : InPlace σ Run β) (target : σ) : Prop :=
  ∃ refusal : Error, refusal.IsAboutShapes ∧
    ∀ log, Ends operation target log (.error refusal) target log

/-- What comes before may do anything that leaves no trace. -/
theorem Refuses.bind {first : InPlace σ Run β} {rest : β → InPlace σ Run γ} {target : σ} {value : β}
    (passes : ∀ log, Ends first target log (.ok value) target log)
    (h : Refuses (rest value) target) : Refuses (first >>= rest) target := by
  obtain ⟨refusal, about, ends⟩ := h
  exact ⟨refusal, about, fun log => Ends.bind (passes log) (ends log)⟩

theorem Refuses.get {rest : σ → InPlace σ Run β} {target : σ} (h : Refuses (rest target) target) :
    Refuses (MonadState.get >>= rest) target :=
  Refuses.bind (fun _ => Ends.get) h

/-- One link of the chain: either the check fails here, or a later one does. -/
theorem Refuses.check {check : Except Error β} {rest : β → InPlace σ Run γ} {target : σ}
    (about : ChecksShapes check)
    (later : ∀ value, check = .ok value → Refuses (rest value) target) :
    Refuses (liftM check >>= rest) target := by
  cases found : check with
  | error refusal => exact ⟨refusal, about refusal found, fun _ => rfl⟩
  | ok value =>
      obtain ⟨refusal, here, ends⟩ := later value found
      exact ⟨refusal, here, fun log => Ends.check rfl (ends log)⟩

/-- The call is refused for its shapes exactly if they do not fit, nothing has changed then,
and shapes that fit cause no fault but the ones given. -/
structure RefusesUnless (operation : InPlace σ Run β) (target : σ) (fits : Prop)
    (faulty : Fault → Prop) : Prop where
  refused_iff : ∀ log, (∃ (refusal : Error) (after : σ) (later : Log), refusal.IsAboutShapes ∧
    Ends operation target log (.error refusal) after later) ↔ ¬ fits
  unchanged : ∀ {log later refusal after}, refusal.IsAboutShapes →
    Ends operation target log (.error refusal) after later → after = target ∧ later = log
  sound : fits → ∀ {log fault later}, Faults operation target log fault later → faulty fault

/-- How a call goes on whose shapes fit. -/
inductive GoesOn (operation : InPlace σ Run β) (target : σ) (log : Log) (faulty : Fault → Prop) :
    Prop
  | succeeds {value : β} {after : σ} {later : Log}
      (h : Ends operation target log (.ok value) after later) : GoesOn operation target log faulty
  | refuses {refusal : Error} {after : σ} {later : Log} (other : ¬ refusal.IsAboutShapes)
      (h : Ends operation target log (.error refusal) after later) :
      GoesOn operation target log faulty
  | faults {fault : Fault} {later : Log} (given : faulty fault)
      (h : Faults operation target log fault later) : GoesOn operation target log faulty

theorem GoesOn.bind {first : InPlace σ Run β} {rest : β → InPlace σ Run γ} {target between : σ}
    {log middle : Log} {faulty : Fault → Prop} {value : β}
    (h : Ends first target log (.ok value) between middle)
    (next : GoesOn (rest value) between middle faulty) :
    GoesOn (first >>= rest) target log faulty := by
  cases next with
  | succeeds ends => exact .succeeds (Ends.bind h ends)
  | refuses other ends => exact .refuses other (Ends.bind h ends)
  | faults given faults => exact .faults given (Faults.bind h faults)

theorem GoesOn.get {rest : σ → InPlace σ Run β} {target : σ} {log : Log} {faulty : Fault → Prop}
    (next : GoesOn (rest target) target log faulty) :
    GoesOn (MonadState.get >>= rest) target log faulty :=
  GoesOn.bind Ends.get next

theorem GoesOn.check {check : Except Error β} {rest : β → InPlace σ Run γ} {target : σ} {log : Log}
    {faulty : Fault → Prop} {value : β} (passes : check = .ok value)
    (next : GoesOn (rest value) target log faulty) :
    GoesOn (liftM check >>= rest) target log faulty :=
  GoesOn.bind (passes ▸ Ends.lift) next

/-- Work that knows nothing of the target either goes through or faults. -/
theorem GoesOn.work {work : Run β} {rest : β → InPlace σ Run γ} {target : σ} {log : Log}
    {faulty : Fault → Prop}
    (given : ∀ {fault later}, work.run.run log = (.error fault, later) → faulty fault)
    (next : ∀ {value middle}, work.run.run log = (.ok value, middle) →
      GoesOn (rest value) target middle faulty) :
    GoesOn (liftM work >>= rest) target log faulty := by
  rcases here : work.run.run log with ⟨result, later⟩
  cases result with
  | error fault => exact .faults (given here) (Faults.first (Faults.work here))
  | ok value => exact GoesOn.bind (Ends.work here) (next here)

theorem GoesOn.not_refused {operation : InPlace σ Run β} {target after : σ} {log later : Log}
    {faulty : Fault → Prop} {refusal : Error} (h : GoesOn operation target log faulty)
    (about : refusal.IsAboutShapes) :
    ¬ Ends operation target log (.error refusal) after later := by
  intro ends
  cases h with
  | succeeds h => cases (h.unique.mp ends).1
  | refuses other h =>
      cases (h.unique.mp ends).1
      exact other about
  | faults _ h => exact ends.not_faults h

theorem GoesOn.faulty {operation : InPlace σ Run β} {target : σ} {log later : Log}
    {faulty : Fault → Prop} {fault : Fault} (h : GoesOn operation target log faulty)
    (faults : Faults operation target log fault later) : faulty fault := by
  cases h with
  | succeeds h => exact absurd faults h.not_faults
  | refuses _ h => exact absurd faults h.not_faults
  | faults given h => exact h.unique faults ▸ given

/-- The two halves of an operation: its chain of checks and its work. -/
theorem refusesUnless_of {operation : InPlace σ Run β} {target : σ} {fits : Prop}
    {faulty : Fault → Prop} (refuses : ¬ fits → Refuses operation target)
    (goesOn : fits → ∀ log, GoesOn operation target log faulty) :
    RefusesUnless operation target fits faulty where
  refused_iff log := by
    constructor
    · rintro ⟨refusal, after, later, about, ends⟩ fits
      exact (goesOn fits log).not_refused about ends
    · intro unfit
      obtain ⟨refusal, about, ends⟩ := refuses unfit
      exact ⟨refusal, target, log, about, ends log⟩
  unchanged {log later refusal after} about ends := by
    by_cases fits : fits
    · exact absurd ends ((goesOn fits log).not_refused about)
    · obtain ⟨_, _, refused⟩ := refuses fits
      exact ((refused log).unique.mp ends).2
  sound fits {log _ _} faults := (goesOn fits log).faulty faults

/-- A call that ends in any other way has been given shapes that fit. -/
theorem RefusesUnless.fits_of_ends {operation : InPlace σ Run β} {target after : σ} {fits : Prop}
    {faulty : Fault → Prop} {log later : Log} {result : Except Error β}
    (h : RefusesUnless operation target fits faulty)
    (ends : Ends operation target log result after later)
    (other : ¬ IsShapeRefusal result) : fits := by
  by_contra misfit
  obtain ⟨refusal, final, last, about, refused⟩ := (h.refused_iff log).mpr misfit
  obtain ⟨rfl, _, _⟩ := refused.unique.mp ends
  exact other about

end InPlace
end RowMajor

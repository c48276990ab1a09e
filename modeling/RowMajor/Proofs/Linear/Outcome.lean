import Mathlib
import RowMajor.Linear.Factor

/-! How operations in place end. A call is described by the result or refusal, the
target and the log that it leaves; a composed call is described from its parts. -/
namespace RowMajor
variable {σ β γ : Type}

namespace InPlace

/-- The call on this target and log ends like this. A call that faults has no end. -/
def Ends (operation : InPlace σ Run β) (target : σ) (log : Log) (result : Except Error β)
    (after : σ) (later : Log) : Prop :=
  (operation.run.run target).run.run log = (.ok (result, after), later)

/-- The call succeeds, whatever is in the log and whatever it adds to it. -/
def Returns (operation : InPlace σ Run β) (target : σ) (value : β) (after : σ) : Prop :=
  ∀ log, ∃ later, Ends operation target log (.ok value) after later

/-- The same for any result or refusal. -/
def Settles (operation : InPlace σ Run β) (target : σ) (result : Except Error β) (after : σ) :
    Prop :=
  ∀ log, ∃ later, Ends operation target log result after later

theorem Ends.pure {target : σ} {log : Log} {value : β} :
    Ends (Pure.pure value) target log (.ok value) target log := rfl

theorem Ends.throw {target : σ} {log : Log} {refusal : Error} :
    Ends (MonadExcept.throw refusal : InPlace σ Run β) target log (.error refusal) target log := rfl

theorem Ends.get {target : σ} {log : Log} :
    Ends (MonadState.get : InPlace σ Run σ) target log (.ok target) target log := rfl

theorem Ends.set {target after : σ} {log : Log} :
    Ends (MonadStateOf.set after : InPlace σ Run PUnit) target log (.ok ⟨⟩) after log := rfl

theorem Ends.lift {check : Except Error β} {target : σ} {log : Log} :
    Ends (liftM check) target log check target log := by
  cases check <;> rfl

/-- A composed call goes on as its rest once its first part has succeeded. -/
theorem Ends.bind_iff {first : InPlace σ Run β} {rest : β → InPlace σ Run γ}
    {target between after : σ} {log middle later : Log} {value : β} {result : Except Error γ}
    (h : Ends first target log (.ok value) between middle) :
    Ends (first >>= rest) target log result after later ↔
      Ends (rest value) between middle result after later := by
  simp only [Ends, ExceptT.run_bind, StateT.run_bind] at h ⊢
  rw [h]
  rfl

theorem Ends.bind {first : InPlace σ Run β} {rest : β → InPlace σ Run γ} {target between after : σ}
    {log middle later : Log} {value : β} {result : Except Error γ}
    (h : Ends first target log (.ok value) between middle)
    (next : Ends (rest value) between middle result after later) :
    Ends (first >>= rest) target log result after later :=
  (Ends.bind_iff h).mpr next

/-- A check that passes leaves everything as it is. -/
theorem Ends.check_iff {check : Except Error β} {rest : β → InPlace σ Run γ} {target after : σ}
    {log later : Log} {value : β} {result : Except Error γ} (passes : check = .ok value) :
    Ends (liftM check >>= rest) target log result after later ↔
      Ends (rest value) target log result after later :=
  Ends.bind_iff (passes ▸ Ends.lift)

theorem Ends.check {check : Except Error β} {rest : β → InPlace σ Run γ} {target after : σ}
    {log later : Log} {value : β} {result : Except Error γ} (passes : check = .ok value)
    (next : Ends (rest value) target log result after later) :
    Ends (liftM check >>= rest) target log result after later :=
  (Ends.check_iff passes).mpr next

/-- A call that has an end has passed everything that could fault. -/
theorem Ends.guard_iff {guard : Except Fault Unit} {rest : Unit → InPlace σ Run γ}
    {target after : σ} {log later : Log} {result : Except Error γ} :
    Ends (liftM (liftM guard : Run Unit) >>= rest) target log result after later ↔
      guard = .ok () ∧ Ends (rest ()) target log result after later := by
  cases guard with
  | error fault =>
      constructor
      · intro h
        cases h
      · rintro ⟨impossible, _⟩
        cases impossible
  | ok value => exact (and_iff_right rfl).symm

/-- A call has one end only. -/
theorem Ends.unique {operation : InPlace σ Run β} {target after other : σ} {log later last : Log}
    {result final : Except Error β} (h : Ends operation target log result after later) :
    Ends operation target log final other last ↔
      final = result ∧ other = after ∧ last = later := by
  constructor
  · intro h'
    have same := h.symm.trans h'
    cases same
    exact ⟨rfl, rfl, rfl⟩
  · rintro ⟨rfl, rfl, rfl⟩
    exact h

theorem Ends.emit_all (events : List γ) (event : γ → Event) (target : σ) (log : Log) :
    Ends (events.forM fun x => emit (event x)) target log (.ok ⟨⟩) target
      (log ++ (events.map event).toArray) := by
  induction events generalizing log with
  | nil =>
      rw [List.map_nil, Array.append_empty]
      rfl
  | cons x rest ih =>
      have tail := ih (log.push (event x))
      have appended : log.push (event x) ++ (rest.map event).toArray =
          log ++ ((x :: rest).map event).toArray := by
        simp
      rwa [appended] at tail

end InPlace
end RowMajor

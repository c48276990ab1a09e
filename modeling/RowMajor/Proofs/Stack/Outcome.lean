import Mathlib
import RowMajor.Stack
import RowMajor.Proofs.Linear.Outcome

/-! How operations on stacks end. Logs are passed over: what an operation gives does not
depend on them. A list of tasks is described by a list of data that the tasks go along. -/
namespace RowMajor.Stack
variable {β γ τ μ σ : Type}

/-- The rest is run from where the first part ends, unless that ends the whole. -/
theorem run_bind (first : StackM β) (rest : β → StackM γ) (log : Log) :
    (first >>= rest).run.run.run log =
      match first.run.run.run log with
      | (.ok (.ok value), middle) => (rest value).run.run.run middle
      | (.ok (.error refusal), middle) => (.ok (.error refusal), middle)
      | (.error fault, middle) => (.error fault, middle) := by
  rw [ExceptT.run_bind, ExceptT.run_bind, StateT.run_bind]
  rcases first.run.run.run log with ⟨fault | refusal | value, middle⟩ <;> rfl

/-- The operation ends with this result or refusal, whatever is in the log. -/
def Gives (operation : StackM β) (result : Except Error β) : Prop :=
  ∀ log, ∃ later, operation.run.run.run log = (.ok result, later)

namespace Gives

theorem unique {operation : StackM β} {result other : Except Error β} (h : Gives operation result)
    (h' : Gives operation other) : result = other := by
  obtain ⟨_, here⟩ := h #[]
  obtain ⟨_, there⟩ := h' #[]
  cases here.symm.trans there
  rfl

theorem pure {value : β} : Gives (Pure.pure value) (.ok value) :=
  fun log => ⟨log, rfl⟩

theorem throw {refusal : Error} : Gives (MonadExcept.throw refusal : StackM β) (.error refusal) :=
  fun log => ⟨log, rfl⟩

theorem lift {check result : Except Error β} (h : check = result) :
    Gives (liftM check : StackM β) result := by
  subst h
  intro log
  cases check <;> exact ⟨log, rfl⟩

/-- A check whose value is not used. -/
theorem discard {check : Except Error β} {result : Except Error PUnit}
    (h : Functor.discard check = result) :
    Gives (Functor.discard (liftM check : StackM β)) result := by
  subst h
  intro log
  cases check <;> exact ⟨log, rfl⟩

theorem emit {event : Event} : Gives (RowMajor.emit event) (.ok ⟨⟩) :=
  fun log => ⟨log.push event, rfl⟩

theorem within {attempt : Attempt (Except Fault) β} {result : Except Error β}
    (h : attempt.run = .ok result) : Gives (Stack.within attempt) result := by
  intro log
  refine ⟨log, ?_⟩
  rw [Stack.within, h]
  rfl

theorem create {made : Except Fault β} {value : β} (h : made = .ok value) :
    Gives (Stack.create made) (.ok value) := by
  subst h
  exact fun log => ⟨log, rfl⟩

theorem bind {first : StackM β} {rest : β → StackM γ} {value : β} {result : Except Error γ}
    (h : Gives first (.ok value)) (next : Gives (rest value) result) :
    Gives (first >>= rest) result := by
  intro log
  obtain ⟨middle, here⟩ := h log
  obtain ⟨later, there⟩ := next middle
  refine ⟨later, ?_⟩
  rw [run_bind, here]
  exact there

theorem bind_error {first : StackM β} {rest : β → StackM γ} {refusal : Error}
    (h : Gives first (.error refusal)) : Gives (first >>= rest) (.error refusal) := by
  intro log
  obtain ⟨later, here⟩ := h log
  exact ⟨later, by rw [run_bind, here]⟩

theorem onOwn {operation : InPlace σ Run β} {target after : σ} {result : Except Error β}
    (h : operation.Settles target result after) :
    Gives (operation.onOwn target) (result.map (·, after)) := by
  have ran : Gives (ExceptT.lift (operation.run.run target)) (.ok (result, after)) := by
    intro log
    obtain ⟨later, ends⟩ := h log
    refine ⟨later, ?_⟩
    rw [ExceptT.run_lift, ExceptT.run_map, StateT.run_map, ends]
    rfl
  refine bind ran ?_
  cases result with
  | ok value => exact pure
  | error refusal => exact throw

end Gives

/-- The operation ends with a value of this kind. -/
def Ensures (operation : StackM β) (post : β → Prop) : Prop :=
  ∃ value, Gives operation (.ok value) ∧ post value

namespace Ensures
variable {post : β → Prop} {post' : γ → Prop}

theorem pure {value : β} (h : post value) : Ensures (Pure.pure value) post :=
  ⟨value, Gives.pure, h⟩

theorem bind {first : StackM β} {rest : β → StackM γ} (h : Ensures first post)
    (next : ∀ value, post value → Ensures (rest value) post') : Ensures (first >>= rest) post' := by
  obtain ⟨value, gives, fits⟩ := h
  obtain ⟨value', gives', fits'⟩ := next value fits
  exact ⟨value', Gives.bind gives gives', fits'⟩

/-- A first part whose value is known. -/
theorem step {first : StackM β} {rest : β → StackM γ} {value : β} (h : Gives first (.ok value))
    (next : Ensures (rest value) post') : Ensures (first >>= rest) post' :=
  bind ⟨value, h, rfl⟩ fun _ same => same ▸ next

end Ensures

/-- The operation refuses as planned, or gives a value for the planned one. -/
def Realizes (holds : β → γ → Prop) (operation : StackM β) (plan : Except Error γ) : Prop :=
  match plan with
  | .error refusal => Gives operation (.error refusal)
  | .ok z => Ensures operation (holds · z)

namespace Realizes
variable {β' γ' : Type} {holds : β → γ → Prop} {holds' : β' → γ' → Prop}

theorem pure {y : β} {z : γ} (h : holds y z) : Realizes holds (Pure.pure y) (.ok z) :=
  Ensures.pure h

theorem bind {first : StackM β} {rest : β → StackM β'} {plan : Except Error γ}
    {next : γ → Except Error γ'} (h : Realizes holds first plan)
    (later : ∀ y z, holds y z → Realizes holds' (rest y) (next z)) :
    Realizes holds' (first >>= rest) (plan >>= next) := by
  cases plan with
  | error refusal => exact Gives.bind_error h
  | ok z =>
      change Realizes holds' (first >>= rest) (next z)
      cases result : next z with
      | error refusal =>
          obtain ⟨y, gives, fits⟩ := h
          have rests := later y z fits
          rw [result] at rests
          exact Gives.bind gives rests
      | ok z' =>
          refine Ensures.bind h fun y fits => ?_
          have rests := later y z fits
          rwa [result] at rests

theorem step {first : StackM β} {rest : β → StackM β'} {value : β} {plan : Except Error γ'}
    (h : Gives first (.ok value)) (next : Realizes holds' (rest value) plan) :
    Realizes holds' (first >>= rest) plan := by
  have known : Realizes (fun y (_ : Unit) => y = value) first (.ok ()) := ⟨value, h, rfl⟩
  exact bind known fun _ _ same => same ▸ next

/-- Tasks along a list of data do what is planned for the data, one after the other: they
give all the values, or the first refusal. -/
theorem mapM {related : τ → μ → Prop} {task : τ → StackM β} {plan : μ → Except Error γ}
    {tasks : List τ} {data : List μ} (along : List.Forall₂ related tasks data)
    (each : ∀ x d, related x d → Realizes holds (task x) (plan d)) :
    Realizes (List.Forall₂ holds) (tasks.mapM task) (data.mapM plan) := by
  induction along with
  | nil => exact pure .nil
  | @cons x d tasks data here _ ih =>
      rw [List.mapM_cons, List.mapM_cons]
      exact bind (each x d here) fun _ _ fits => bind ih fun _ _ all => pure (.cons fits all)

end Realizes

/-- Tasks that refuse nothing give a value for each of the data. -/
theorem Ensures.mapM {related : τ → μ → Prop} (holds : β → μ → Prop) {task : τ → StackM β}
    {tasks : List τ} {data : List μ} (along : List.Forall₂ related tasks data)
    (each : ∀ x d, related x d → Ensures (task x) (holds · d)) :
    Ensures (tasks.mapM task) (List.Forall₂ holds · data) := by
  have all : data.mapM (fun d => .ok d) = (.ok data : Except Error (List μ)) :=
    List.mapM_pure.trans (congrArg Except.ok (List.map_id' data))
  have realized : Realizes (List.Forall₂ holds) (tasks.mapM task) (data.mapM fun d => .ok d) :=
    Realizes.mapM along each
  rw [all] at realized
  exact realized

theorem Realizes.dispatch {related : τ → μ → Prop} {holds : β → γ → Prop} {task : τ → StackM β}
    {plan : μ → Except Error γ} {tasks : List τ} {data : List μ}
    (along : List.Forall₂ related tasks data)
    (each : ∀ x d, related x d → Realizes holds (task x) (plan d)) :
    Realizes (List.Forall₂ holds) (Stack.dispatch tasks task) (data.mapM plan) := by
  have reported : Realizes (fun _ _ => True) (emit (.dispatch tasks.length)) (.ok ()) :=
    ⟨_, Gives.emit, trivial⟩
  exact bind reported fun _ _ _ => mapM along each

theorem Ensures.dispatch {related : τ → μ → Prop} (holds : β → μ → Prop) {task : τ → StackM β}
    {tasks : List τ} {data : List μ} (along : List.Forall₂ related tasks data)
    (each : ∀ x d, related x d → Ensures (task x) (holds · d)) :
    Ensures (Stack.dispatch tasks task) (List.Forall₂ holds · data) :=
  step Gives.emit (mapM holds along each)

end RowMajor.Stack

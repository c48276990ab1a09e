import Mathlib
import RowMajor.Proofs.Linear.Effect
import RowMajor.Proofs.Pointwise.Gather

/-! Operations on elements in place, and operations that keep a log. The first are the
operations that make a new structure, whose elements the target takes over. The second do what
they would do without the log. -/
namespace RowMajor
variable {α β γ δ σ : Type}

/-- What becomes of a target that takes over the elements of a result, or hears of a refusal. -/
def Tensor.takeOver (target : Tensor α) : Except Error (Tensor α) → Except Error Unit × Tensor α
  | .ok made => (.ok (), target.splice 0 made.cells.toArray)
  | .error refusal => (.error refusal, target)

section Run
variable {m : Type → Type} [Monad m] [LawfulMonad m]

/-- A pass gives as many results as there are elements. -/
theorem mapM_bind_congr {xs : List β} {f : β → m γ} {rest rest' : List γ → m δ}
    (same : ∀ ys, ys.length = xs.length → rest ys = rest' ys) :
    xs.mapM f >>= rest = xs.mapM f >>= rest' := by
  induction xs generalizing rest rest' with
  | nil =>
      rw [List.mapM_nil, pure_bind, pure_bind]
      exact same [] rfl
  | cons x xs ih =>
      simp only [List.mapM_cons, bind_assoc, pure_bind]
      apply bind_congr
      intro y
      apply ih
      intro ys count
      exact same (y :: ys) (congrArg Nat.succ count)

theorem run_get_bind (rest : σ → InPlace σ m β) (target : σ) :
    ((get : InPlace σ m σ) >>= rest).run.run target = (rest target).run.run target := by
  rw [ExceptT.run_bind, StateT.run_bind]
  change (pure (target, target) >>= fun pair => pure (Except.ok pair.1, pair.2)) >>= _ = _
  rw [pure_bind, pure_bind]

theorem run_set (target after : σ) :
    (set after : InPlace σ m PUnit).run.run target = pure (.ok ⟨⟩, after) := by
  change (pure (PUnit.unit, after) >>= fun pair => pure (Except.ok pair.1, pair.2)) = _
  rw [pure_bind]

theorem run_check_bind (check : Except Error γ) (rest : γ → InPlace σ m β) (target : σ) :
    ((liftM check : InPlace σ m γ) >>= rest).run.run target =
      match check with
      | .ok x => (rest x).run.run target
      | .error refusal => pure (.error refusal, target) := by
  rw [ExceptT.run_bind, StateT.run_bind]
  cases check <;> exact pure_bind _ _

theorem run_pass (xs : Array β) (f : β → m γ) (put : Array γ → σ) (target : σ) :
    ((liftM (xs.mapM f) : InPlace σ m (Array γ)) >>= fun cells => set (put cells)).run.run target =
      xs.toList.mapM f >>= fun ys => pure (.ok ⟨⟩, put ys.toArray) := by
  rw [InPlace.run_work_bind, mapM_bind]
  exact bind_congr fun ys => run_set target (put ys.toArray)

theorem takeOver_ofArray (target : Tensor α) {cells : Array α}
    (count : cells.size = target.layout.size) :
    target.takeOver (Tensor.ofArray target.layout cells) = (.ok (), target.splice 0 cells) := by
  rw [Tensor.ofArray_eq_ok count, Tensor.takeOver, Tensor.cells_compact]

/-- Storing what a pass gives into the target is taking over the tensor of its results. -/
theorem takeOver_pass {target : Tensor α} {layout : Layout} (same : target.layout = layout)
    {xs : List β} (length : xs.length = layout.size) (f : β → m α) :
    (xs.mapM f >>= fun ys => pure (.ok (), target.splice 0 ys.toArray)) =
      target.takeOver <$> (xs.mapM f >>= fun ys =>
        pure (Tensor.ofArray layout ys.toArray)) := by
  subst same
  rw [map_bind]
  apply mapM_bind_congr
  intro ys count
  rw [map_pure, takeOver_ofArray target (by rw [List.size_toArray, count, length])]

theorem Pointwise.zipAssign_run (source : Tensor β) (f : α → β → m α) (target : Tensor α) :
    (Pointwise.zipAssign source f).run.run target =
      target.takeOver <$> (Pointwise.zip target source f).run := by
  unfold Pointwise.zipAssign Pointwise.zipTarget
  rw [run_get_bind, run_check_bind]
  by_cases same : target.shape = source.shape
  · rw [Pointwise.zip_run f same, ← takeOver_pass rfl (length_zip_cells same), requireSameShape,
      if_pos same]
    refine (run_pass _ _ (target.splice 0) target).trans ?_
    rw [Array.toList_zip]
    rfl
  · rw [Pointwise.zip_refuses f same, requireSameShape, if_neg same, map_pure]
    rfl

theorem Pointwise.mapAssign_run (f : α → m α) (target : Tensor α) :
    (Pointwise.mapAssign f).run.run target = target.takeOver <$> (Pointwise.map target f).run := by
  unfold Pointwise.mapAssign
  have length : target.cells.toList.length = target.layout.size := Vector.length_toList
  rw [run_get_bind, Pointwise.map_run, ← takeOver_pass rfl length]
  exact run_pass _ f (target.splice 0) target

theorem GroupOps.addAssign_run [MonadLiftT (Except Fault) m] [LawfulMonadLiftT (Except Fault) m]
    (ops : GroupOps m α) (other : Structure α) (target : Tensor α) :
    (ops.addAssign other).run.run target =
      target.takeOver <$> (ops.addAll (.stored target) other).run := by
  have there : (liftM (Structure.stored target).flat : m (Tensor α)) = pure target := liftM_pure _
  unfold addAssign addTarget addAll
  rw [InPlace.run_work_bind, Structure.zip_run, there, pure_bind, map_bind]
  exact bind_congr fun source => Pointwise.zipAssign_run source ops.add target

theorem FieldOps.scaleAssign_run [MonadLiftT (Except Fault) m] [LawfulMonadLiftT (Except Fault) m]
    (ops : FieldOps m α) (value : Float) (target : Tensor α) :
    (ops.scaleAssign value).run.run target =
      target.takeOver <$> (ops.scaleAll (.stored target) value).run := by
  have there : (liftM (Structure.stored target).flat : m (Tensor α)) = pure target := liftM_pure _
  unfold scaleAssign scaleAll
  rw [Structure.map_run, there, pure_bind]
  exact Pointwise.mapAssign_run _ target

end Run

/-! What an assignment leaves behind -/

/-- A target takes over all elements of a result of its layout, and nothing else changes. -/
theorem takeOver_spec {target made : Tensor α} (layout_eq : made.layout = target.layout) :
    ∃ after, target.takeOver (.ok made) = (.ok (), after) ∧ target.StaysInPlace after ∧
      after.SameContents made := by
  have full : 0 + made.cells.toArray.size = target.layout.size := by
    rw [Vector.size_toArray, layout_eq, Nat.zero_add]
  refine ⟨target.splice 0 made.cells.toArray, rfl, target.staysInPlace_splice 0 _, ?_, ?_⟩
  · exact congrArg Layout.shape layout_eq.symm
  · rw [Tensor.toList_cells_splice (Nat.le_of_eq full), full, List.take_zero, List.nil_append,
      List.drop_of_length_le (by rw [Vector.length_toList]), List.append_nil]
    rfl

/-- The assignment does in its target what the work does with it: the target takes over the
elements that the work makes, and what lies around it stays. -/
structure AssignsLike (assign : InPlace (Tensor α) (Except Fault) Unit) (target : Tensor α)
    (work : Except Fault (Except Error (Tensor α))) : Prop where
  returns : ∀ {made}, work = .ok (.ok made) →
    ∃ after, assign.run.run target = .ok (.ok (), after) ∧ target.AgreesAround after ∧
      after.SameContents made
  refuses : ∀ {refusal}, work = .ok (.error refusal) →
    assign.run.run target = .ok (.error refusal, target)
  faults : ∀ {fault}, work = .error fault → assign.run.run target = .error fault

theorem assignsLike_of {assign : InPlace (Tensor α) (Except Fault) Unit} {target : Tensor α}
    {work : Except Fault (Except Error (Tensor α))}
    (ran : assign.run.run target = target.takeOver <$> work)
    (layouts : ∀ made, work = .ok (.ok made) → made.layout = target.layout) :
    AssignsLike assign target work where
  returns {made} found := by
    obtain ⟨after, taken, place, same⟩ := takeOver_spec (layouts made found)
    refine ⟨after, ?_, place.around, same⟩
    rw [ran, found]
    exact congrArg Except.ok taken
  refuses found := by
    rw [ran, found]
    rfl
  faults found := by
    rw [ran, found]
    rfl

theorem layout_ofArray {cells : Array α} {layout : Layout} {made : Tensor α}
    (h : Tensor.ofArray layout cells = .ok made) : made.layout = layout := by
  unfold Tensor.ofArray at h
  split at h
  · cases h
    rfl
  · cases h

theorem layout_of_pass {f : β → Except Fault α} {xs : List β} {layout : Layout} {made : Tensor α}
    (h : (xs.mapM f >>= fun ys => pure (Tensor.ofArray layout ys.toArray)) = .ok (.ok made)) :
    made.layout = layout := by
  obtain ⟨ys, _, stored⟩ := bind_found h
  exact layout_ofArray (Except.ok.inj stored)

theorem GroupOps.addAssign_assignsLike (ops : GroupOps (Except Fault) α) (other : Structure α)
    (target : Tensor α) : AssignsLike (ops.addAssign other) target
      (ops.addAll (.stored target) other).run := by
  refine assignsLike_of (ops.addAssign_run other target) fun made found => ?_
  rw [addAll, Structure.zip_run] at found
  obtain ⟨a, there, found⟩ := bind_found found
  obtain ⟨b, _, found⟩ := bind_found found
  cases there
  by_cases same : target.shape = b.shape
  · rw [Pointwise.zip_run _ same] at found
    exact layout_of_pass found
  · rw [Pointwise.zip_refuses _ same] at found
    cases found

theorem FieldOps.scaleAssign_assignsLike (ops : FieldOps (Except Fault) α) (value : Float)
    (target : Tensor α) : AssignsLike (ops.scaleAssign value) target
      (ops.scaleAll (.stored target) value).run := by
  refine assignsLike_of (ops.scaleAssign_run value target) fun made found => ?_
  rw [scaleAll, Structure.map_run] at found
  obtain ⟨a, there, found⟩ := bind_found found
  cases there
  rw [Pointwise.map_run] at found
  exact layout_of_pass found

/-! Where there is a log -/

/-- The operations where there is a log, which they leave as it is. -/
def FieldOps.logged (ops : FieldOps (Except Fault) α) : FieldOps Run α where
  zero := ops.zero
  add left right := liftM (ops.add left right)
  neg arg := liftM (ops.neg arg)
  sub left right := liftM (ops.sub left right)
  plus arg := liftM (ops.plus arg)
  one := ops.one
  multiply left right := liftM (ops.multiply left right)
  divide left right := liftM (ops.divide left right)
  scale arg value := liftM (ops.scale arg value)
  reciprocal arg := liftM (ops.reciprocal arg)
  number value := liftM (ops.number value)

section Lift
variable {m : Type → Type} [Monad m] [LawfulMonad m] [MonadLiftT (Except Fault) m]
  [LawfulMonadLiftT (Except Fault) m]

theorem mapM_lift (xs : List β) (f : β → Except Fault γ) :
    xs.mapM (fun x => (liftM (f x) : m γ)) = liftM (xs.mapM f) := by
  induction xs with
  | nil => exact (liftM_pure _).symm
  | cons x xs ih => simp only [List.mapM_cons, liftM_bind, liftM_pure, ih]

theorem Pointwise.map_lift (t : Tensor α) (f : α → Except Fault β) :
    (Pointwise.map t fun x => (liftM (f x) : m β)).run = liftM (Pointwise.map t f).run := by
  rw [map_run, map_run, mapM_lift, liftM_bind]
  simp only [liftM_pure]

theorem Pointwise.zip_lift (a : Tensor α) (b : Tensor β) (f : α → β → Except Fault γ) :
    (Pointwise.zip a b fun x y => (liftM (f x y) : m γ)).run = liftM (Pointwise.zip a b f).run := by
  by_cases same : a.shape = b.shape
  · rw [zip_run _ same, zip_run _ same, liftM_bind, ← mapM_lift]
    simp only [liftM_pure]
  · rw [zip_refuses _ same, zip_refuses _ same, liftM_pure]

theorem Structure.map_lift (s : Structure α) (f : α → Except Fault α) :
    (s.map fun x => (liftM (f x) : m α)).run = liftM (s.map f : Attempt (Except Fault) _).run := by
  rw [map_run, map_run, liftM_bind]
  exact bind_congr fun t => Pointwise.map_lift t f

theorem Structure.zip_lift (left right : Structure α) (f : α → α → Except Fault α) :
    (left.zip right fun x y => (liftM (f x y) : m α)).run =
      liftM (left.zip right f : Attempt (Except Fault) _).run := by
  rw [zip_run, zip_run, liftM_bind]
  apply bind_congr
  intro a
  rw [liftM_bind]
  exact bind_congr fun b => Pointwise.zip_lift a b f

end Lift

/-- The operations do with a log what they do without it. -/
structure DoesAlike (ops : FieldOps (Except Fault) α) (logged : FieldOps Run α) : Prop where
  add : ∀ left right, (logged.addAll left right).run = liftM (ops.addAll left right).run
  sub : ∀ left right, (logged.subAll left right).run = liftM (ops.subAll left right).run
  neg : ∀ arg, (logged.negAll arg).run = liftM (ops.negAll arg).run
  multiply : ∀ left right,
    (logged.multiplyAll left right).run = liftM (ops.multiplyAll left right).run
  divide : ∀ left right, (logged.divideAll left right).run = liftM (ops.divideAll left right).run
  scale : ∀ arg value, (logged.scaleAll arg value).run = liftM (ops.scaleAll arg value).run
  zeros : logged.zeros = ops.zeros
  ones : logged.ones = ops.ones
  addAssign : ∀ other target, (logged.addAssign other).run.run target =
    liftM ((ops.addAssign other).run.run target)
  scaleAssign : ∀ value target, (logged.scaleAssign value).run.run target =
    liftM ((ops.scaleAssign value).run.run target)

theorem FieldOps.logged_doesAlike (ops : FieldOps (Except Fault) α) :
    DoesAlike ops ops.logged where
  add left right := Structure.zip_lift left right ops.add
  sub left right := Structure.zip_lift left right ops.sub
  neg arg := Structure.map_lift arg ops.neg
  multiply left right := Structure.zip_lift left right ops.multiply
  divide left right := Structure.zip_lift left right ops.divide
  scale arg value := Structure.map_lift arg (ops.scale · value)
  zeros := rfl
  ones := rfl
  addAssign other target := by
    have added : (ops.logged.addAll (.stored target) other).run =
        liftM (ops.addAll (.stored target) other).run := Structure.zip_lift _ other ops.add
    rw [ops.addAssign_run, ops.logged.addAssign_run, added, liftM_map]
  scaleAssign value target := by
    have scaled : (ops.logged.scaleAll (.stored target) value).run =
        liftM (ops.scaleAll (.stored target) value).run :=
      Structure.map_lift _ (ops.scale · value)
    rw [ops.scaleAssign_run, ops.logged.scaleAssign_run, scaled, liftM_map]

/-- A named operation reports itself and then is the operation of that name. -/
theorem ElementAlgebra.binaryAll_run (algebra : ElementAlgebra Run α) {name : String}
    {f : α → α → Except Fault α}
    (known : algebra.binaryFunction name = .ok fun x y => liftM (f x y))
    (left right : Structure α) (log : Log) :
    (algebra.binaryAll name left right).run.run.run log =
      ((left.zip right f : Attempt (Except Fault) _).run,
        log.push (.structureOperation algebra.name name left.shape)) := by
  have zipped : (left.zip right fun x y => (liftM (f x y) : Run α)).run =
      liftM (left.zip right f : Attempt (Except Fault) _).run := Structure.zip_lift left right f
  unfold binaryAll
  rw [known]
  change (left.zip right fun x y => (liftM (f x y) : Run α)).run.run.run _ = _
  rw [zipped]
  rfl

theorem ElementAlgebra.unaryAll_run (algebra : ElementAlgebra Run α) {name : String}
    {f : α → Except Fault α} (known : algebra.unaryFunction name = .ok fun x => liftM (f x))
    (arg : Structure α) (log : Log) :
    (algebra.unaryAll name arg).run.run.run log =
      ((arg.map f : Attempt (Except Fault) _).run, log) := by
  have mapped : (arg.map fun x => (liftM (f x) : Run α)).run =
      liftM (arg.map f : Attempt (Except Fault) _).run := Structure.map_lift arg f
  unfold unaryAll
  rw [known]
  change (arg.map fun x => (liftM (f x) : Run α)).run.run.run _ = _
  rw [mapped]
  rfl

end RowMajor

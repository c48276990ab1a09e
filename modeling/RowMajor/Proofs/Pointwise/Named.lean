import Mathlib
import RowMajor.Algebra.Integer
import RowMajor.Algebra.Real
import RowMajor.Proofs.Algebra.Named
import RowMajor.Proofs.Pointwise.Gather

/-! Operations on structures by name. A name leads to the operation of the same level that can
be called directly, and to nothing besides it but one report. A name that stands for nothing is
refused before anything else happens, whatever the operands are. -/
namespace RowMajor
variable {m : Type → Type} [Monad m] [MonadLiftT (Except Fault) m] {α : Type}

namespace ElementAlgebra
variable (algebra : ElementAlgebra m α)

/-- The names of binary operations, and the operations on structures behind them. -/
inductive DirectBinary : String → (Structure α → Structure α → Attempt m (Tensor α)) → Prop
  | add {ops : GroupOps m α} : algebra.level.group? = some ops → DirectBinary "+" ops.addAll
  | sub {ops : GroupOps m α} : algebra.level.group? = some ops → DirectBinary "-" ops.subAll
  | multiply {ops : RingOps m α} :
      algebra.level.ring? = some ops → DirectBinary "*" ops.multiplyAll
  | divide {ops : FieldOps m α} : algebra.level.field? = some ops → DirectBinary "/" ops.divideAll

/-- Only the inverse has an operation of its own, the other methods are mapped. -/
inductive DirectUnary : String → (Structure α → Attempt m (Tensor α)) → Prop
  | plus {ops : GroupOps m α} : algebra.level.group? = some ops → DirectUnary "+" (·.map ops.plus)
  | neg {ops : GroupOps m α} : algebra.level.group? = some ops → DirectUnary "-" ops.negAll
  | sqrt {ops : PowerOps m α} : algebra.powers = some ops → DirectUnary "sqrt" (·.map ops.sqrt)
  | exp {ops : ExponentialOps m α} :
      algebra.exponentials = some ops → DirectUnary "exp" (·.map ops.exp)
  | ln {ops : ExponentialOps m α} :
      algebra.exponentials = some ops → DirectUnary "ln" (·.map ops.ln)

variable {algebra} {name : String}

theorem directBinary_iff {direct : Structure α → Structure α → Attempt m (Tensor α)} :
    algebra.DirectBinary name direct ↔
      ∃ f, algebra.NamesBinary name f ∧ direct = fun left right => left.zip right f := by
  constructor
  · rintro (level | level | level | level)
    · exact ⟨_, .add level, rfl⟩
    · exact ⟨_, .sub level, rfl⟩
    · exact ⟨_, .multiply level, rfl⟩
    · exact ⟨_, .divide level, rfl⟩
  · rintro ⟨f, level | level | level | level, rfl⟩
    · exact .add level
    · exact .sub level
    · exact .multiply level
    · exact .divide level

theorem directUnary_iff {direct : Structure α → Attempt m (Tensor α)} :
    algebra.DirectUnary name direct ↔
      ∃ f, algebra.NamesUnary name f ∧ direct = fun arg => arg.map f := by
  constructor
  · rintro (level | level | powers | exponentials | exponentials)
    · exact ⟨_, .plus level, rfl⟩
    · exact ⟨_, .neg level, rfl⟩
    · exact ⟨_, .sqrt powers, rfl⟩
    · exact ⟨_, .exp exponentials, rfl⟩
    · exact ⟨_, .ln exponentials, rfl⟩
  · rintro ⟨f, level | level | powers | exponentials | exponentials, rfl⟩
    · exact .plus level
    · exact .neg level
    · exact .sqrt powers
    · exact .exp exponentials
    · exact .ln exponentials

end ElementAlgebra

open ElementAlgebra

/-- What a name means for two elements and for two structures. Direct operations run after one
report; where the name stands for nothing, the operands do not appear in the result. -/
structure FindsBinary [MonadStateOf Log m] (algebra : ElementAlgebra m α) : Prop where
  found : ∀ name f, algebra.binaryFunction name = .ok f ↔ algebra.NamesBinary name f
  unknown : ∀ name refusal, algebra.binaryFunction name = .error refusal ↔
    (∀ f, ¬ algebra.NamesBinary name f) ∧ refusal = .unsupportedOperation name algebra.name
  elements : ∀ name f, algebra.NamesBinary name f →
    ∀ x y, algebra.binary name x y = ExceptT.lift (f x y)
  elements_unknown : ∀ name, (∀ f, ¬ algebra.NamesBinary name f) →
    ∀ x y, algebra.binary name x y = throw (.unsupportedOperation name algebra.name)
  direct : ∀ name f, algebra.NamesBinary name f →
    algebra.DirectBinary name fun left right => left.zip right f
  structures : ∀ name direct, algebra.DirectBinary name direct → ∀ left right,
    algebra.binaryAll name left right = (do
      emit (.structureOperation algebra.name name left.shape)
      direct left right)
  structures_unknown : ∀ name, (∀ f, ¬ algebra.NamesBinary name f) → ∀ left right,
    algebra.binaryAll name left right =
      throw (.lookup (.unsupportedOperation name algebra.name))
  reported : ∀ name shape, (Event.structureOperation algebra.name name shape).level = .debug

/-- What a name means for one element and for one structure. Nothing is reported. -/
structure FindsUnary (algebra : ElementAlgebra m α) : Prop where
  found : ∀ name f, algebra.unaryFunction name = .ok f ↔ algebra.NamesUnary name f
  unknown : ∀ name refusal, algebra.unaryFunction name = .error refusal ↔
    (∀ f, ¬ algebra.NamesUnary name f) ∧ refusal = .unsupportedOperation name algebra.name
  elements : ∀ name f, algebra.NamesUnary name f →
    ∀ x, algebra.unary name x = ExceptT.lift (f x)
  elements_unknown : ∀ name, (∀ f, ¬ algebra.NamesUnary name f) →
    ∀ x, algebra.unary name x = throw (.unsupportedOperation name algebra.name)
  direct : ∀ name f, algebra.NamesUnary name f → algebra.DirectUnary name (·.map f)
  structures : ∀ name direct, algebra.DirectUnary name direct →
    ∀ arg, algebra.unaryAll name arg = direct arg
  structures_unknown : ∀ name, (∀ f, ¬ algebra.NamesUnary name f) →
    ∀ arg, algebra.unaryAll name arg = throw (.lookup (.unsupportedOperation name algebra.name))

theorem findsBinary [MonadStateOf Log m] (algebra : ElementAlgebra m α) : FindsBinary algebra where
  found _ _ := binaryFunction_eq_ok_iff
  unknown _ _ := binaryFunction_eq_error_iff
  elements name f named x y := by
    rw [binary, binaryFunction_eq_ok_iff.mpr named]
  elements_unknown name none x y := by
    rw [binary, binaryFunction_eq_error_iff.mpr ⟨none, rfl⟩]
  direct name f named := directBinary_iff.mpr ⟨f, named, rfl⟩
  structures name direct known left right := by
    obtain ⟨f, named, rfl⟩ := directBinary_iff.mp known
    rw [binaryAll, binaryFunction_eq_ok_iff.mpr named]
  structures_unknown name none left right := by
    rw [binaryAll, binaryFunction_eq_error_iff.mpr ⟨none, rfl⟩]
  reported _ _ := rfl

theorem findsUnary (algebra : ElementAlgebra m α) : FindsUnary algebra where
  found _ _ := unaryFunction_eq_ok_iff
  unknown _ _ := unaryFunction_eq_error_iff
  elements name f named x := by
    rw [unary, unaryFunction_eq_ok_iff.mpr named]
  elements_unknown name none x := by
    rw [unary, unaryFunction_eq_error_iff.mpr ⟨none, rfl⟩]
  direct name f named := directUnary_iff.mpr ⟨f, named, rfl⟩
  structures name direct known arg := by
    obtain ⟨f, named, rfl⟩ := directUnary_iff.mp known
    rw [unaryAll, unaryFunction_eq_ok_iff.mpr named]
  structures_unknown name none arg := by
    rw [unaryAll, unaryFunction_eq_error_iff.mpr ⟨none, rfl⟩]

/-! What is seen in the log -/

theorem Structure.zip_mismatch {left right : Structure α} {a b : Tensor α}
    (foundLeft : left.flat = .ok a) (foundRight : right.flat = .ok b)
    (different : left.shape ≠ right.shape) (f : α → α → Run α) (log : Log) :
    (left.zip right f).run.run.run log =
      (.ok (.error (.shapeMismatch left.shape right.shape)), log) := by
  rw [← shape_of_flat foundLeft, ← shape_of_flat foundRight] at different ⊢
  have refused := Pointwise.zip_refuses f different
  rw [Structure.zip_run, foundLeft, foundRight]
  change (Pointwise.zip a b f).run.run.run log = _
  rw [refused]
  rfl

/-- An unknown name is refused before shapes that do not fit, and without a report. A known one
is reported first, also where the shapes do not fit. -/
structure ReportsNamed (algebra : ElementAlgebra Run α) : Prop where
  known : ∀ name direct, algebra.DirectBinary name direct → ∀ left right log,
    (algebra.binaryAll name left right).run.run.run log =
      (direct left right).run.run.run
        (log.push (.structureOperation algebra.name name left.shape))
  mismatch : ∀ name direct, algebra.DirectBinary name direct → ∀ left right,
    (∃ a b, left.flat = .ok a ∧ right.flat = .ok b) → left.shape ≠ right.shape → ∀ log,
      (algebra.binaryAll name left right).run.run.run log =
        (.ok (.error (.shapeMismatch left.shape right.shape)),
          log.push (.structureOperation algebra.name name left.shape))
  unknown : ∀ name, (∀ f, ¬ algebra.NamesBinary name f) → ∀ left right log,
    (algebra.binaryAll name left right).run.run.run log =
      (.ok (.error (.lookup (.unsupportedOperation name algebra.name))), log)
  unknownUnary : ∀ name, (∀ f, ¬ algebra.NamesUnary name f) → ∀ arg log,
    (algebra.unaryAll name arg).run.run.run log =
      (.ok (.error (.lookup (.unsupportedOperation name algebra.name))), log)

theorem reportsNamed (algebra : ElementAlgebra Run α) : ReportsNamed algebra where
  known name direct known left right log := by
    rw [(findsBinary algebra).structures name direct known]
    rfl
  mismatch name direct known left right := by
    rintro ⟨a, b, foundLeft, foundRight⟩ different log
    obtain ⟨f, _, rfl⟩ := directBinary_iff.mp known
    rw [(findsBinary algebra).structures name _ known]
    exact Structure.zip_mismatch foundLeft foundRight different f _
  unknown name none left right log := by
    rw [(findsBinary algebra).structures_unknown name none]
    rfl
  unknownUnary name none arg log := by
    rw [(findsUnary algebra).structures_unknown name none]
    rfl

/-- Every algebra finds its operations by the names of its levels, and no other. -/
theorem operations_areFound :
    (∀ {m : Type → Type} [Monad m] [MonadLiftT (Except Fault) m] [MonadStateOf Log m] {α : Type}
      (algebra : ElementAlgebra m α), FindsBinary algebra ∧ FindsUnary algebra) ∧
    ∀ {α : Type} (algebra : ElementAlgebra Run α), ReportsNamed algebra :=
  ⟨fun algebra => ⟨findsBinary algebra, findsUnary algebra⟩, reportsNamed⟩

/-- The field of floats subtracts in its own way, and integers are not divided. -/
example [Elementary α] :
    (RealField.algebra : ElementAlgebra m α).binaryFunction "-" = .ok fun x y => pure (x - y) :=
  rfl

example [MonadExceptOf Fault m] : (integerRing : ElementAlgebra m (MachineInt 64)).binaryFunction
    "/" = .error (.unsupportedOperation "/" "IntRing") :=
  rfl

end RowMajor

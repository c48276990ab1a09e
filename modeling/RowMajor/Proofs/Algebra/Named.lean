import Mathlib
import RowMajor.Algebra.Named

/-! Operations by name. What a name stands for follows from the level of the algebra and from
nothing else: every level brings names of its own, and each of them stands for the method that
the algebra has, overridden or not. All other names are refused in one way. -/
namespace RowMajor

theorem BinaryOp.ofSymbol?_eq_some_iff {name : String} {op : BinaryOp} :
    ofSymbol? name = some op ↔ name = op.symbol := by
  constructor
  · intro found
    have same := List.find?_some found
    exact (beq_iff_eq.mp same).symm
  · rintro rfl
    exact ofSymbol?_symbol op

theorem UnaryOp.ofSymbol?_eq_some_iff {name : String} {op : UnaryOp} :
    ofSymbol? name = some op ↔ name = op.symbol := by
  constructor
  · intro found
    have same := List.find?_some found
    exact (beq_iff_eq.mp same).symm
  · rintro rfl
    exact ofSymbol?_symbol op

/-- What has been found, or the refusal. -/
def foundOr {β : Type} (refusal : LookupError) : Option β → Except LookupError β
  | some x => .ok x
  | none => .error refusal

theorem foundOr_eq_ok_iff {β : Type} {refusal : LookupError} {found : Option β} {x : β} :
    foundOr refusal found = .ok x ↔ found = some x := by
  cases found <;> simp [foundOr]

theorem foundOr_eq_error_iff {β : Type} {refusal unknown : LookupError} {found : Option β} :
    foundOr refusal found = .error unknown ↔
      (∀ x, foundOr refusal found ≠ .ok x) ∧ unknown = refusal := by
  cases found <;> simp [foundOr, eq_comm]

variable {m : Type → Type} [Monad m] {α : Type}

namespace AlgebraLevel
variable (level : AlgebraLevel m α)

@[simp] theorem binary?_plus : level.binary? .plus = level.group?.map (·.add) := by
  cases level <;> rfl

@[simp] theorem binary?_minus : level.binary? .minus = level.group?.map (·.sub) := by
  cases level <;> rfl

@[simp] theorem binary?_times : level.binary? .times = level.ring?.map (·.multiply) := by
  cases level <;> rfl

@[simp] theorem binary?_div : level.binary? .div = level.field?.map (·.divide) := by
  cases level <;> rfl

end AlgebraLevel

namespace ElementAlgebra
variable (algebra : ElementAlgebra m α)

/-- The tables are asked one after the other, but no two of them know the same operation. -/
@[simp] theorem unary?_plus : algebra.unary? .plus = algebra.level.group?.map (·.plus) := by
  rcases algebra with ⟨_, level, _ | powers, _ | exponentials, _⟩ <;> cases level <;> rfl

@[simp] theorem unary?_minus : algebra.unary? .minus = algebra.level.group?.map (·.neg) := by
  rcases algebra with ⟨_, level, _ | powers, _ | exponentials, _⟩ <;> cases level <;> rfl

@[simp] theorem unary?_sqrt : algebra.unary? .sqrt = algebra.powers.map (·.sqrt) := by
  rcases algebra with ⟨_, level, _ | powers, _ | exponentials, _⟩ <;> cases level <;> rfl

@[simp] theorem unary?_exp : algebra.unary? .exp = algebra.exponentials.map (·.exp) := by
  rcases algebra with ⟨_, level, _ | powers, _ | exponentials, _⟩ <;> cases level <;> rfl

@[simp] theorem unary?_ln : algebra.unary? .ln = algebra.exponentials.map (·.ln) := by
  rcases algebra with ⟨_, level, _ | powers, _ | exponentials, _⟩ <;> cases level <;> rfl

/-- The names of binary operations, by level, and the methods that they stand for. -/
inductive NamesBinary : String → (α → α → m α) → Prop
  | add {ops : GroupOps m α} : algebra.level.group? = some ops → NamesBinary "+" ops.add
  | sub {ops : GroupOps m α} : algebra.level.group? = some ops → NamesBinary "-" ops.sub
  | multiply {ops : RingOps m α} : algebra.level.ring? = some ops → NamesBinary "*" ops.multiply
  | divide {ops : FieldOps m α} : algebra.level.field? = some ops → NamesBinary "/" ops.divide

inductive NamesUnary : String → (α → m α) → Prop
  | plus {ops : GroupOps m α} : algebra.level.group? = some ops → NamesUnary "+" ops.plus
  | neg {ops : GroupOps m α} : algebra.level.group? = some ops → NamesUnary "-" ops.neg
  | sqrt {ops : PowerOps m α} : algebra.powers = some ops → NamesUnary "sqrt" ops.sqrt
  | exp {ops : ExponentialOps m α} : algebra.exponentials = some ops → NamesUnary "exp" ops.exp
  | ln {ops : ExponentialOps m α} : algebra.exponentials = some ops → NamesUnary "ln" ops.ln

variable {algebra} {name : String}

theorem binaryFunction_eq (algebra : ElementAlgebra m α) (name : String) :
    algebra.binaryFunction name = foundOr (.unsupportedOperation name algebra.name)
      ((BinaryOp.ofSymbol? name).bind algebra.level.binary?) := by
  unfold binaryFunction binary?
  cases (BinaryOp.ofSymbol? name).bind algebra.level.binary? <;> rfl

theorem unaryFunction_eq (algebra : ElementAlgebra m α) (name : String) :
    algebra.unaryFunction name = foundOr (.unsupportedOperation name algebra.name)
      ((UnaryOp.ofSymbol? name).bind algebra.unary?) := by
  unfold unaryFunction
  cases (UnaryOp.ofSymbol? name).bind algebra.unary? <;> rfl

theorem binaryFunction_eq_ok_iff_exists {f : α → α → m α} :
    algebra.binaryFunction name = .ok f ↔
      ∃ op, name = op.symbol ∧ algebra.level.binary? op = some f := by
  simp only [← BinaryOp.ofSymbol?_eq_some_iff]
  rw [binaryFunction_eq, foundOr_eq_ok_iff, Option.bind_eq_some_iff]

theorem unaryFunction_eq_ok_iff_exists {f : α → m α} :
    algebra.unaryFunction name = .ok f ↔ ∃ op, name = op.symbol ∧ algebra.unary? op = some f := by
  simp only [← UnaryOp.ofSymbol?_eq_some_iff]
  rw [unaryFunction_eq, foundOr_eq_ok_iff, Option.bind_eq_some_iff]

theorem binaryFunction_eq_ok_iff {f : α → α → m α} :
    algebra.binaryFunction name = .ok f ↔ algebra.NamesBinary name f := by
  rw [binaryFunction_eq_ok_iff_exists]
  constructor
  · rintro ⟨op, rfl, known⟩
    cases op with
    | plus =>
        obtain ⟨ops, level, rfl⟩ := Option.map_eq_some_iff.mp (algebra.level.binary?_plus ▸ known)
        exact .add level
    | minus =>
        obtain ⟨ops, level, rfl⟩ := Option.map_eq_some_iff.mp (algebra.level.binary?_minus ▸ known)
        exact .sub level
    | times =>
        obtain ⟨ops, level, rfl⟩ := Option.map_eq_some_iff.mp (algebra.level.binary?_times ▸ known)
        exact .multiply level
    | div =>
        obtain ⟨ops, level, rfl⟩ := Option.map_eq_some_iff.mp (algebra.level.binary?_div ▸ known)
        exact .divide level
  · rintro (level | level | level | level)
    · exact ⟨.plus, rfl, by simp [level]⟩
    · exact ⟨.minus, rfl, by simp [level]⟩
    · exact ⟨.times, rfl, by simp [level]⟩
    · exact ⟨.div, rfl, by simp [level]⟩

theorem unaryFunction_eq_ok_iff {f : α → m α} :
    algebra.unaryFunction name = .ok f ↔ algebra.NamesUnary name f := by
  rw [unaryFunction_eq_ok_iff_exists]
  constructor
  · rintro ⟨op, rfl, known⟩
    cases op with
    | plus =>
        obtain ⟨ops, level, rfl⟩ := Option.map_eq_some_iff.mp (algebra.unary?_plus ▸ known)
        exact .plus level
    | minus =>
        obtain ⟨ops, level, rfl⟩ := Option.map_eq_some_iff.mp (algebra.unary?_minus ▸ known)
        exact .neg level
    | sqrt =>
        obtain ⟨ops, powers, rfl⟩ := Option.map_eq_some_iff.mp (algebra.unary?_sqrt ▸ known)
        exact .sqrt powers
    | exp =>
        obtain ⟨ops, exponentials, rfl⟩ := Option.map_eq_some_iff.mp (algebra.unary?_exp ▸ known)
        exact .exp exponentials
    | ln =>
        obtain ⟨ops, exponentials, rfl⟩ := Option.map_eq_some_iff.mp (algebra.unary?_ln ▸ known)
        exact .ln exponentials
  · rintro (level | level | powers | exponentials | exponentials)
    · exact ⟨.plus, rfl, by simp [level]⟩
    · exact ⟨.minus, rfl, by simp [level]⟩
    · exact ⟨.sqrt, rfl, by simp [powers]⟩
    · exact ⟨.exp, rfl, by simp [exponentials]⟩
    · exact ⟨.ln, rfl, by simp [exponentials]⟩

/-! Names that stand for nothing -/

theorem binaryFunction_eq_error_iff {unknown : LookupError} :
    algebra.binaryFunction name = .error unknown ↔
      (∀ f, ¬ algebra.NamesBinary name f) ∧ unknown = .unsupportedOperation name algebra.name := by
  simp only [← binaryFunction_eq_ok_iff, binaryFunction_eq]
  exact foundOr_eq_error_iff

theorem unaryFunction_eq_error_iff {unknown : LookupError} :
    algebra.unaryFunction name = .error unknown ↔
      (∀ f, ¬ algebra.NamesUnary name f) ∧ unknown = .unsupportedOperation name algebra.name := by
  simp only [← unaryFunction_eq_ok_iff, unaryFunction_eq]
  exact foundOr_eq_error_iff

end ElementAlgebra
end RowMajor

import Mathlib
import RowMajor.Proofs.Algebra.Integer
import RowMajor.Proofs.Pointwise.Laws

/-! Integer structures. The operations of the ring give the exact numbers at all multi-indices, or
one of them overflows. Taking a difference also overflows where only a negative does not fit. -/
namespace RowMajor
open Layout (InBounds)
variable {bits : Nat} {layout : Layout}

/-- The number at a multi-index; outside of the structure there is none, and zero stands for it. -/
def Structure.number (s : Structure (MachineInt bits)) (index : List Nat) : Int :=
  match s.read index with
  | .ok x => x.val
  | .error _ => 0

theorem Structure.IsOperand.read_number {s : Structure (MachineInt bits)} (h : s.IsOperand layout)
    {index : List Nat} (hi : InBounds layout.shape index) :
    ∃ x, s.read index = .ok x ∧ s.number index = x.val := by
  obtain ⟨x, _, read⟩ := h.read_eq hi
  refine ⟨x, read, ?_⟩
  rw [number, read]

namespace MachineInt

/-- The outcome for a structure: everything as expected, or one of the overflows. -/
inductive Expected.MeetsAll (layout : Layout) (expected : List Nat → Expected) :
    Except Fault (Except Error (Tensor (MachineInt bits))) → Prop
  | returns {made : Tensor (MachineInt bits)} : (Structure.stored made).IsOperand layout →
      (∀ index, InBounds layout.shape index → (expected index).possible ∧
        (Structure.stored made).number index = (expected index).value) →
      MeetsAll layout expected (.ok (.ok made))
  | overflows {index : List Nat} : InBounds layout.shape index → ¬ (expected index).possible →
      MeetsAll layout expected (.error (.overflow (expected index).overflow))

namespace Expected
variable {expected : List Nat → Expected} {value : List Nat → Except Fault (MachineInt bits)}
  {outcome : Except Fault (Except Error (Tensor (MachineInt bits)))}

theorem meetsAll_of_gathers (h : Gathers .stored layout value outcome)
    (meets : ∀ index, InBounds layout.shape index → (expected index).Meets (value index)) :
    MeetsAll layout expected outcome := by
  cases h with
  | returns operand reads =>
      refine .returns operand fun index hi => ?_
      obtain ⟨x, read, number⟩ := operand.read_number hi
      have found : value index = .ok x := (reads index hi).symm.trans read
      by_cases possible : (expected index).possible
      · obtain ⟨z, here, exact_value⟩ := (meets index hi).returns possible
        obtain rfl : x = z := Except.ok.inj (found.symm.trans here)
        exact ⟨possible, number.trans exact_value⟩
      · cases found.symm.trans ((meets index hi).overflows possible)
  | @faults index stop hi fails =>
      by_cases possible : (expected index).possible
      · obtain ⟨z, here, _⟩ := (meets index hi).returns possible
        cases fails.symm.trans here
      · obtain rfl : stop = .overflow (expected index).overflow :=
          Except.error.inj (fails.symm.trans ((meets index hi).overflows possible))
        exact .overflows hi possible

end Expected

/-- Operands of one shape are combined number by number. Before their shapes are looked at they
are stored, and different ones are refused. -/
structure CombinesNumbers (bits : Nat) (expected : Int → Int → Expected)
    (work : Structure (MachineInt bits) → Structure (MachineInt bits) →
      Attempt (Except Fault) (Tensor (MachineInt bits))) : Prop where
  meets : ∀ {layout : Layout} {left right : Structure (MachineInt bits)}, left.IsOperand layout →
    right.IsOperand layout → Expected.MeetsAll layout
      (fun index => expected (left.number index) (right.number index)) (work left right).run
  refuses : ∀ {left right : Structure (MachineInt bits)} {a b : Tensor (MachineInt bits)},
    left.flat = .ok a → right.flat = .ok b → left.shape ≠ right.shape →
      (work left right).run = .ok (.error (.shapeMismatch left.shape right.shape))
  noRoom : ∀ {left right : Structure (MachineInt bits)} {fault : Fault},
    left.flat = .error fault ∨ right.flat = .error fault → (work left right).run = .error .noRoom

structure MapsNumbers (bits : Nat) (expected : Int → Expected)
    (work : Structure (MachineInt bits) → Attempt (Except Fault) (Tensor (MachineInt bits))) :
    Prop where
  meets : ∀ {layout : Layout} {s : Structure (MachineInt bits)}, s.IsOperand layout →
    Expected.MeetsAll layout (fun index => expected (s.number index)) (work s).run
  noRoom : ∀ {s : Structure (MachineInt bits)} {fault : Fault}, s.flat = .error fault →
    (work s).run = .error .noRoom

theorem combinesNumbers_zip {expected : Int → Int → Expected}
    {f : MachineInt bits → MachineInt bits → Except Fault (MachineInt bits)}
    (meets : ∀ x y, (expected x.val y.val).Meets (f x y)) :
    CombinesNumbers bits expected fun left right => left.zip right f where
  meets hl hr := by
    refine Expected.meetsAll_of_gathers ((Structure.zip_combines f).gathers hl hr) ?_
    intro index hi
    obtain ⟨x, readLeft, first⟩ := hl.read_number hi
    obtain ⟨y, readRight, second⟩ := hr.read_number hi
    rw [readLeft, readRight, first, second]
    exact meets x y
  refuses := (Structure.zip_combines f).refuses
  noRoom := (Structure.zip_combines f).noRoom

theorem mapsNumbers_map {expected : Int → Expected}
    {f : MachineInt bits → Except Fault (MachineInt bits)}
    (meets : ∀ x, (expected x.val).Meets (f x)) :
    MapsNumbers bits expected fun s => s.map f where
  meets h := by
    refine Expected.meetsAll_of_gathers ((Structure.map_maps f).gathers h) ?_
    intro index hi
    obtain ⟨x, read, number⟩ := h.read_number hi
    rw [read, number]
    exact meets x
  noRoom := (Structure.map_maps f).noRoom

/-! Operations found by name -/

theorem checked_liftM (operation : Arithmetic) (v : Int) :
    (checked operation v : Run (MachineInt bits)) =
      liftM (checked operation v : Except Fault (MachineInt bits)) := by
  by_cases fits : Fits bits v
  · rw [checked_eq_ok fits]
    exact dif_pos fits
  · rw [checked_eq_error fits]
    exact dif_neg fits

theorem sub_liftM (x y : MachineInt bits) : (integerOps.sub x y : Run (MachineInt bits)) =
    liftM (integerOps.sub x y : Except Fault (MachineInt bits)) := by
  have both : (integerOps.sub x y : Run (MachineInt bits)) =
      checked .negate (-y.val) >>= fun z : MachineInt bits => checked .add (x.val + z.val) := rfl
  rw [both, sub_eq, checked_liftM]
  by_cases negates : Fits bits (-y.val)
  · rw [checked_eq_ok negates]
    exact checked_liftM .add _
  · rw [checked_eq_error negates]
    rfl

/-- The operation of this name is reported and does the same. -/
def RunsLike (bits : Nat) (name : String)
    (work : Structure (MachineInt bits) → Structure (MachineInt bits) →
      Attempt (Except Fault) (Tensor (MachineInt bits))) : Prop :=
  ∀ (left right : Structure (MachineInt bits)) (log : Log),
    ((integerRing : ElementAlgebra Run (MachineInt bits)).binaryAll name left right).run.run.run
      log = ((work left right).run, log.push (.structureOperation "IntRing" name left.shape))

theorem runsLike_zip {name : String}
    {found : MachineInt bits → MachineInt bits → Run (MachineInt bits)}
    {f : MachineInt bits → MachineInt bits → Except Fault (MachineInt bits)}
    (known : integerRing.binaryFunction name = .ok found)
    (same : ∀ x y, found x y = liftM (f x y)) :
    RunsLike bits name fun left right => left.zip right f :=
  ElementAlgebra.binaryAll_run _ (known.trans (congrArg Except.ok (funext₂ same)))

/-- Structures of machine integers, and their elements. -/
structure ComputesIntegers (bits : Nat) : Prop where
  add : ∀ x y : MachineInt bits, (Expected.sum bits x.val y.val).Meets (integerOps.add x y)
  neg : ∀ x : MachineInt bits, (Expected.negative bits x.val).Meets (integerOps.neg x)
  multiply : ∀ x y : MachineInt bits,
    (Expected.product bits x.val y.val).Meets (integerOps.multiply x y)
  sub : ∀ x y : MachineInt bits,
    (Expected.difference bits x.val y.val).Meets (integerOps.sub x y)
  /-- Only the lowest integer has no negative. -/
  negates : ∀ y : MachineInt bits,
    ¬ (Expected.negative bits y.val).possible ↔ 0 < bits ∧ ∀ z : MachineInt bits, y.val ≤ z.val
  addAll : CombinesNumbers bits (Expected.sum bits) integerOps.addAll
  negAll : MapsNumbers bits (Expected.negative bits) integerOps.negAll
  multiplyAll : CombinesNumbers bits (Expected.product bits) integerOps.multiplyAll
  subAll : CombinesNumbers bits (Expected.difference bits) integerOps.subAll
  namedAdd : RunsLike bits "+" integerOps.addAll
  namedMultiply : RunsLike bits "*" integerOps.multiplyAll
  namedSub : RunsLike bits "-" integerOps.subAll
  namedNeg : ∀ (arg : Structure (MachineInt bits)) (log : Log),
    ((integerRing : ElementAlgebra Run (MachineInt bits)).unaryAll "-" arg).run.run.run log =
      ((integerOps.negAll arg : Attempt (Except Fault) _).run, log)

theorem integers_areComputed (bits : Nat) : ComputesIntegers bits where
  add := add_meets
  neg := neg_meets
  multiply := multiply_meets
  sub := sub_meets
  negates := not_fits_neg_iff
  addAll := combinesNumbers_zip add_meets
  negAll := mapsNumbers_map neg_meets
  multiplyAll := combinesNumbers_zip multiply_meets
  subAll := combinesNumbers_zip sub_meets
  namedAdd := runsLike_zip rfl fun x y => checked_liftM .add (x.val + y.val)
  namedMultiply := runsLike_zip rfl fun x y => checked_liftM .multiply (x.val * y.val)
  namedSub := runsLike_zip rfl sub_liftM
  namedNeg := ElementAlgebra.unaryAll_run _
    (congrArg Except.ok (funext fun x => checked_liftM .negate (-x.val)))

def minusOne : MachineInt 64 :=
  .ofInt (-1)

def lowestInteger : MachineInt 64 :=
  .ofInt (-9223372036854775808)

/-- A computed structure of one element. -/
def single (x : MachineInt 64) : Structure (MachineInt 64) :=
  .lazy Linear.numberLayout fun _ => x

theorem single_isOperand (x : MachineInt 64) : (single x).IsOperand Linear.numberLayout :=
  ⟨rfl, trivial, _, Structure.flat_lazy _ _ (by decide)⟩

theorem integers_areComputed_single : Expected.MeetsAll Linear.numberLayout
    (fun _ => Expected.difference 64 minusOne.val lowestInteger.val)
    (integerOps.subAll (single minusOne) (single lowestInteger) : Attempt (Except Fault) _).run :=
  (integers_areComputed 64).subAll.meets (single_isOperand _) (single_isOperand _)

/-- The largest integer is the lowest one subtracted from minus one, but is not found like that. -/
theorem sub_lowestInteger :
    Fits 64 (minusOne.val - lowestInteger.val) ∧
      (integerOps.sub minusOne lowestInteger : Except Fault _) = .error (.overflow .negate) ∧
      ∀ log, ((integerRing : ElementAlgebra Run (MachineInt 64)).binaryAll "-" (single minusOne)
        (single lowestInteger)).run.run.run log =
          (.error (.overflow .negate), log.push (.structureOperation "IntRing" "-" [1])) := by
  have unfit : ¬ Fits 64 (-lowestInteger.val) := by decide +kernel
  have impossible : ¬ (Expected.difference 64 minusOne.val lowestInteger.val).possible :=
    fun possible => unfit possible.1
  have negate : (Expected.difference 64 minusOne.val lowestInteger.val).overflow = .negate := by
    rw [Expected.difference, if_neg unfit]
  refine ⟨by decide +kernel, ?_, fun log => ?_⟩
  · rw [(sub_meets minusOne lowestInteger).overflows impossible, negate]
  · have outcome := (combinesNumbers_zip sub_meets).meets (single_isOperand minusOne)
      (single_isOperand lowestInteger)
    rw [runsLike_zip rfl sub_liftM]
    refine congrArg (·, _) ?_
    generalize ExceptT.run _ = ran at outcome ⊢
    cases outcome with
    | returns _ all => exact absurd (all [0] (.cons Nat.one_pos .nil)).1 impossible
    | overflows => exact congrArg (Except.error ∘ Fault.overflow) negate

end MachineInt
end RowMajor

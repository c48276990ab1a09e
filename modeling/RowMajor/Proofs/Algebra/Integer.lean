import Mathlib
import RowMajor.Algebra.Integer

/-! Exactness of machine integers. A sum, a negative or a product is exact wherever it fits and
overflows elsewhere. A difference is a sum with the negative, so that it also overflows where only
the negative does not fit. -/
namespace RowMajor
namespace MachineInt
variable {bits : Nat}

def Fits (bits : Nat) (v : Int) : Prop :=
  -((valueCount bits / 2 : Nat) : Int) ≤ v ∧ v < (((valueCount bits + 1) / 2 : Nat) : Int)

instance (v : Int) : Decidable (Fits bits v) :=
  inferInstanceAs (Decidable (_ ∧ _))

/-- Only the lowest integer has no negative. -/
theorem not_fits_neg_iff (y : MachineInt bits) :
    ¬ Fits bits (-y.val) ↔ 0 < bits ∧ ∀ z : MachineInt bits, y.val ≤ z.val := by
  have lower := y.lower
  have upper := y.upper
  cases bits with
  | zero =>
      have count : valueCount 0 = 1 := rfl
      rw [count] at lower upper
      simp only [Fits, count]
      omega
  | succ k =>
      have count : valueCount (k + 1) = 2 * 2 ^ k := by
        rw [valueCount, Nat.one_shiftLeft, Nat.pow_succ']
      have pos : 0 < 2 ^ k := Nat.two_pow_pos k
      constructor
      · intro unfit
        refine ⟨Nat.succ_pos k, fun z => Int.le_trans ?_ z.lower⟩
        simp only [Fits, count] at lower upper unfit ⊢
        omega
      · rintro ⟨_, least⟩ fits
        have small := least ⟨-((valueCount (k + 1) / 2 : Nat) : Int), Int.le_refl _, by omega⟩
        simp only [Fits, count] at lower small fits
        omega

/-- What an operation is to give: a number where that is possible, and else an overflow. -/
structure Expected where
  value : Int
  possible : Prop
  overflow : Arithmetic

namespace Expected

def sum (bits : Nat) (x y : Int) : Expected :=
  ⟨x + y, Fits bits (x + y), .add⟩

def product (bits : Nat) (x y : Int) : Expected :=
  ⟨x * y, Fits bits (x * y), .multiply⟩

def negative (bits : Nat) (x : Int) : Expected :=
  ⟨-x, Fits bits (-x), .negate⟩

/-- The negative comes first. -/
def difference (bits : Nat) (x y : Int) : Expected :=
  ⟨x - y, Fits bits (-y) ∧ Fits bits (x - y), if Fits bits (-y) then .add else .negate⟩

/-- The outcome for one element. -/
structure Meets (expected : Expected) (outcome : Except Fault (MachineInt bits)) : Prop where
  returns : expected.possible → ∃ z, outcome = .ok z ∧ z.val = expected.value
  overflows : ¬ expected.possible → outcome = .error (.overflow expected.overflow)

end Expected

theorem checked_eq_ok {operation : Arithmetic} {v : Int} (fits : Fits bits v) :
    (checked operation v : Except Fault (MachineInt bits)) = .ok ⟨v, fits.1, fits.2⟩ :=
  dif_pos fits

theorem checked_eq_error {operation : Arithmetic} {v : Int} (unfit : ¬ Fits bits v) :
    (checked operation v : Except Fault (MachineInt bits)) = .error (.overflow operation) :=
  dif_neg unfit

theorem checked_meets (operation : Arithmetic) (v : Int) :
    Expected.Meets ⟨v, Fits bits v, operation⟩
      (checked operation v : Except Fault (MachineInt bits)) where
  returns fits := ⟨_, checked_eq_ok fits, rfl⟩
  overflows := checked_eq_error

variable (x y : MachineInt bits)

theorem add_meets : (Expected.sum bits x.val y.val).Meets (integerOps.add x y) :=
  checked_meets .add _

theorem multiply_meets : (Expected.product bits x.val y.val).Meets (integerOps.multiply x y) :=
  checked_meets .multiply _

theorem neg_meets : (Expected.negative bits x.val).Meets (integerOps.neg x) :=
  checked_meets .negate _

theorem sub_eq : (integerOps.sub x y : Except Fault (MachineInt bits)) =
    checked .negate (-y.val) >>= fun z : MachineInt bits => checked .add (x.val + z.val) := rfl

theorem sub_meets : (Expected.difference bits x.val y.val).Meets (integerOps.sub x y) := by
  by_cases negates : Fits bits (-y.val)
  · have sum : (integerOps.sub x y : Except Fault (MachineInt bits)) =
        checked .add (x.val - y.val) := by
      rw [sub_eq, checked_eq_ok negates]
      rfl
    rw [sum, Expected.difference, if_pos negates]
    constructor
    · rintro ⟨_, fits⟩
      exact ⟨_, checked_eq_ok fits, rfl⟩
    · intro impossible
      exact checked_eq_error fun fits => impossible ⟨negates, fits⟩
  · rw [sub_eq, checked_eq_error negates, Expected.difference, if_neg negates]
    exact ⟨fun possible => absurd possible.1 negates, fun _ => rfl⟩

end MachineInt
end RowMajor

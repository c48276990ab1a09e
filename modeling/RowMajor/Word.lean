import RowMajor.Fault

/-! Sizes and offsets are natural numbers below `2 ^ 64`. Sums and products that
leave this range are faults, never wrapped values. What is stored is bounded more
tightly: a request beyond `room` is a fault too. -/
namespace RowMajor.Word

def bound : Nat := 0x10000000000000000

/-- The largest size there is. -/
def top : Nat := bound - 1

def add (a b : Nat) : Except Fault Nat :=
  if a + b < bound then .ok (a + b) else .error (.overflow .add)

def mul (a b : Nat) : Except Fault Nat :=
  if a * b < bound then .ok (a * b) else .error (.overflow .multiply)

theorem add_eq_ok {a b c : Nat} : add a b = .ok c ↔ a + b < bound ∧ c = a + b := by
  unfold add
  split
  · rename_i small
    simp only [Except.ok.injEq, small, true_and, eq_comm]
  · rename_i large
    simp only [reduceCtorEq, large, false_and]

theorem mul_eq_ok {a b c : Nat} : mul a b = .ok c ↔ a * b < bound ∧ c = a * b := by
  unfold mul
  split
  · rename_i small
    simp only [Except.ok.injEq, small, true_and, eq_comm]
  · rename_i large
    simp only [reduceCtorEq, large, false_and]

/-- No memory has room for this many elements, however small they are. -/
def room : Nat := 0x400000000000000

def requireRoom (count : Nat) : Except Fault Unit :=
  if count < room then .ok () else .error .noRoom

theorem requireRoom_eq_ok {count : Nat} : requireRoom count = .ok () ↔ count < room := by
  unfold requireRoom
  split
  · rename_i small
    simp only [small]
  · rename_i large
    simp only [reduceCtorEq, large]

end RowMajor.Word

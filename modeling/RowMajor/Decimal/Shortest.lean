import RowMajor.Decimal.Binary

/-! The fewest decimal digits that identify a float. A decimal reads back to a
float when it lies between the halfway points to the two neighbours, the ends
included exactly when the mantissa is even. Grids of one digit, two digits and
so on are tried in turn, and on each of them the two neighbours of the value. -/
namespace RowMajor.Decimal

/-- The number `digits * 10 ^ exponent`. -/
structure Dec where
  digits : Nat
  exponent : Int

/-- The least `k` with `x < 10 ^ k`, for `x` not zero. -/
def Binary.scale (x : Binary) : Int :=
  let num := x.mantissa <<< x.exponent.toNat
  let den := 1 <<< (-x.exponent).toNat
  if den ≤ num then (Nat.toDigits 10 (num / den)).length
  else 1 - (Nat.toDigits 10 ((den - 1) / num)).length

/-- Both sides of a comparison of `digits * 10 ^ grid` with quarters of the unit
of `x`, over one denominator. -/
def Binary.gridSide (x : Binary) (grid : Int) (digits : Nat) : Nat :=
  (digits <<< (2 - x.exponent).toNat) * Nat.pow 10 grid.toNat

def Binary.quarterSide (x : Binary) (grid : Int) (quarters : Nat) : Nat :=
  (quarters <<< (x.exponent - 2).toNat) * Nat.pow 10 (-grid).toNat

def Binary.readsBack (x : Binary) (grid : Int) (digits : Nat) : Bool :=
  let low := x.quarterSide grid (if x.narrowBelow then 4 * x.mantissa - 1 else 4 * x.mantissa - 2)
  let high := x.quarterSide grid (4 * x.mantissa + 2)
  let here := x.gridSide grid digits
  if x.mantissa % 2 = 0 then low ≤ here && here ≤ high else low < here && here < high

/-- The neighbour on the grid that reads back; of two such the nearer, and the
upper one if the value lies halfway between them. -/
def Binary.onGrid? (x : Binary) (grid : Int) : Option Nat :=
  let value := x.quarterSide grid (4 * x.mantissa)
  let below := value / x.gridSide grid 1
  match x.readsBack grid below, x.readsBack grid (below + 1) with
  | false, false => none
  | true, false => some below
  | false, true => some (below + 1)
  | true, true =>
    if 2 * value < x.gridSide grid (2 * below + 1) then some below else some (below + 1)

def stripZeros : Nat → Dec → Dec
  | 0, d => d
  | fuel + 1, d =>
    if d.digits % 10 = 0 then stripZeros fuel ⟨d.digits / 10, d.exponent + 1⟩ else d

/-- Seventeen digits suffice for every format in use; should they not, the exact
value is given. -/
def Binary.shortest (x : Binary) : Dec :=
  let scale := x.scale
  let found := (List.range 17).findSome? fun (n : Nat) =>
    let grid := scale - (n + 1 : Nat)
    (x.onGrid? grid).map fun digits => Dec.mk digits grid
  let dec := found.getD
    ⟨(x.mantissa <<< x.exponent.toNat) * Nat.pow 5 (-x.exponent).toNat, min x.exponent 0⟩
  stripZeros (Nat.toDigits 10 dec.digits).length dec

end RowMajor.Decimal

import RowMajor.Random.Generator
import RowMajor.Random.Layers
import RowMajor.Random.Source

/-! Normally distributed numbers. A point is drawn in one of the layers; it is taken
at once if it lies inside the next narrower layer, and otherwise if it lies under
the curve. The lowest layer has a tail of its own. -/
namespace RowMajor.Generator
open Layers (edge height tailEdge)

/-- The float with the given exponent field whose fraction is the upper part of `bits`. -/
def withFraction (field bits : UInt64) : Float :=
  .ofBits ((field <<< 52) ||| (bits >>> 12))

/-- Uniform between zero and one, both excluded. -/
def openUnit (g : Generator) : Float × Generator :=
  let (bits, g) := g.next
  (withFraction 0x3ff bits - .ofBits 0x3fefffffffffffff, g)

/-- Uniform between zero and one, one excluded. -/
def unit (g : Generator) : Float × Generator :=
  let (bits, g) := g.next
  ((bits >>> 11).toFloat * .ofBits 0x3ca0000000000000, g)

/-- A distance past the edge of the tail. The attempts run out with a probability
that is nil for every practical purpose. -/
def tail : Nat → Generator → Float × Generator
  | 0, g => (0, g)
  | attempts + 1, g =>
    let (a, g) := g.openUnit
    let (b, g) := g.openUnit
    let x := a.log / tailEdge
    let y := b.log
    if -2 * y < x * x then tail attempts g else (x, g)

def normalWithin : Nat → Generator → Float × Generator
  | 0, g => (0, g)
  | attempts + 1, g =>
    let (bits, g) := g.next
    let i := bits.toNat % 256
    let u := withFraction 0x400 bits - 3
    let x := u * edge i
    if x.abs < edge (i + 1) then (x, g)
    else if i = 0 then
      let (x, g) := tail 0x100000 g
      (if u < 0 then x - tailEdge else tailEdge - x, g)
    else
      let (v, g) := g.unit
      if height (i + 1) + (height i - height (i + 1)) * v < (-x * x / 2).exp then (x, g)
      else normalWithin attempts g

/-- A point is rejected about once in a hundred draws, so that the bound on the
attempts is never met. -/
def normal (g : Generator) : Float × Generator :=
  g.normalWithin 0x100000

def normalSource : Source Generator Float :=
  ⟨normal⟩

end RowMajor.Generator

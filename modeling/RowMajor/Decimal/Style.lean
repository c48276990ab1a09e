import RowMajor.Decimal.Shortest

/-! How numbers are laid out as text once their digits are chosen. -/
namespace RowMajor.Decimal

/-- The decisions of a notation. `plainFrom` and `plainBelow` bound the exponents
of the leading digit that are written positionally. -/
structure Style where
  wholePoint : Bool
  plainFrom : Option Int
  plainBelow : Option Int

/-- For readers: always positional, whole numbers without a point. -/
def Style.display : Style where
  wholePoint := false
  plainFrom := none
  plainBelow := none

/-- For diagnosis: whole numbers keep a point, very small and very large numbers
are written with an exponent. -/
def Style.diagnostic : Style where
  wholePoint := true
  plainFrom := some (-4)
  plainBelow := some 16

def Style.isPlain (style : Style) (leading : Int) : Bool :=
  style.plainFrom.all (· ≤ leading) && style.plainBelow.all (leading < ·)

def zeros (count : Nat) : String :=
  String.ofList (List.replicate count '0')

def Style.positional (style : Style) (digits : List Char) (exponent : Int) : String :=
  if 0 ≤ exponent then
    String.ofList digits ++ zeros exponent.toNat ++ (if style.wholePoint then ".0" else "")
  else
    let places := (-exponent).toNat
    if places < digits.length then
      String.ofList (digits.take (digits.length - places)) ++ "."
        ++ String.ofList (digits.drop (digits.length - places))
    else "0." ++ zeros (places - digits.length) ++ String.ofList digits

def scientific (digits : List Char) (leading : Int) : String :=
  let mantissa :=
    if digits.length = 1 then String.ofList digits
    else String.ofList (digits.take 1) ++ "." ++ String.ofList (digits.drop 1)
  mantissa ++ "e" ++ toString leading

def Style.magnitude (style : Style) (x : Binary) : String :=
  if x.mantissa = 0 then (if style.wholePoint then "0.0" else "0")
  else
    let dec := x.shortest
    let digits := Nat.toDigits 10 dec.digits
    let leading := dec.exponent + (digits.length - 1)
    if style.isPlain leading then style.positional digits dec.exponent
    else scientific digits leading

/-- The text of the float with the given bits. What is not a number has no sign. -/
def Style.render (style : Style) (format : Format) (bits : Nat) : String :=
  let fraction := bits % (1 <<< format.fractionBits)
  let field := (bits >>> format.fractionBits) % (1 <<< format.exponentBits)
  let sign := if (bits >>> (format.fractionBits + format.exponentBits)) % 2 = 1 then "-" else ""
  if field = format.topField then (if fraction = 0 then sign ++ "inf" else "NaN")
  else sign ++ style.magnitude (.ofBits format bits)

/-- Types whose values have a text for readers and a text for diagnosis. -/
class NumberText (α : Type) where
  display : α → String
  diagnostic : α → String

instance : NumberText Int := ⟨toString, toString⟩

instance : NumberText Float where
  display x := Style.display.render binary64 x.toBits.toNat
  diagnostic x := Style.diagnostic.render binary64 x.toBits.toNat

instance : NumberText Float32 where
  display x := Style.display.render binary32 x.toBits.toNat
  diagnostic x := Style.diagnostic.render binary32 x.toBits.toNat

end RowMajor.Decimal

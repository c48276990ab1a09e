/-! Binary floating-point numbers as exact quantities. A finite number is a
natural mantissa times a power of two; everything that must be exact about
floats (their shortest text, truncation, a correctly rounded length) is done on
this form with integer arithmetic. -/
namespace RowMajor.Decimal

/-- An interchange format, by the widths of its two fields. -/
structure Format where
  fractionBits : Nat
  exponentBits : Nat

def binary64 : Format := ⟨52, 11⟩
def binary32 : Format := ⟨23, 8⟩

/-- The exponent of the last bit of the smallest numbers. -/
def Format.lowest (format : Format) : Int :=
  2 - (1 <<< (format.exponentBits - 1) : Nat) - format.fractionBits

/-- The exponent field of infinities and of what is not a number. -/
def Format.topField (format : Format) : Nat :=
  (1 <<< format.exponentBits) - 1

/-- The number `mantissa * 2 ^ exponent`. Below a power of two the neighbouring
float is only half as far away as above it, and `narrowBelow` says so. -/
structure Binary where
  mantissa : Nat
  exponent : Int
  narrowBelow : Bool

/-- The magnitude held in the bits of a finite float; the sign bit is dropped. -/
def Binary.ofBits (format : Format) (bits : Nat) : Binary :=
  let fraction := bits % (1 <<< format.fractionBits)
  let field := (bits >>> format.fractionBits) % (1 <<< format.exponentBits)
  if field = 0 then ⟨fraction, format.lowest, false⟩
  else ⟨(1 <<< format.fractionBits) + fraction, format.lowest + (field - 1),
    fraction == 0 && field > 1⟩

/-- The whole part. -/
def Binary.floor (x : Binary) : Nat :=
  (x.mantissa <<< x.exponent.toNat) >>> (-x.exponent).toNat

/-- `mantissa / 2 ^ drop` to the nearest whole number, an exact half to the even one. -/
def roundHalfEven (mantissa drop : Nat) : Nat :=
  let unit := 1 <<< drop
  let whole := mantissa / unit
  let rest := 2 * (mantissa % unit)
  if rest < unit then whole
  else if unit < rest then whole + 1
  else whole + whole % 2

/-- The bits of the non-negative float nearest to `mantissa * 2 ^ exponent`. The
significand field overflows into the exponent field on purpose: that is the next
power of two, and past the largest number it is infinity. -/
def Format.nearest (format : Format) (mantissa : Nat) (exponent : Int) : Nat :=
  if mantissa = 0 then 0
  else
    let unit := max format.lowest (exponent + mantissa.log2 - format.fractionBits)
    let significand :=
      roundHalfEven (mantissa <<< (exponent - unit).toNat) (unit - exponent).toNat
    let bits := ((unit - format.lowest).toNat <<< format.fractionBits) + significand
    min bits (format.topField <<< format.fractionBits)

end RowMajor.Decimal

/-!
# Percentages

A share is a floating-point number and is written with two decimals.  The exact
binary value is rounded, and a tie goes to the even neighbour.
-/

namespace Redstone.Text

/-- The quotient rounded to the nearest natural number; a tie goes to the even
one. -/
def roundDiv (num den : Nat) : Nat :=
  let q := num / den
  let r := num % den
  if 2 * r < den then q
  else if den < 2 * r then q + 1
  else if q % 2 == 0 then q else q + 1

/-- The weight of the bit above the fraction of a floating-point number. -/
def implicitBit : Nat := 0x10000000000000

/-- The hundredths nearest to the magnitude of a finite floating-point number. -/
def hundredths (x : Float) : Nat :=
  let bits := x.toBits.toNat
  let exponent := bits / implicitBit % 2048
  let fraction := bits % implicitBit
  let mantissa := if exponent == 0 then fraction else fraction + implicitBit
  let shift := max exponent 1
  if 1075 ≤ shift then mantissa * Nat.pow 2 (shift - 1075) * 100
  else roundDiv (mantissa * 100) (Nat.pow 2 (1075 - shift))

/-- A finite floating-point number with two decimals. -/
def twoDecimals (x : Float) : String :=
  let n := hundredths x
  let cents := n % 100
  (if 2048 * implicitBit ≤ x.toBits.toNat then "-" else "") ++
    toString (n / 100) ++ "." ++ (if cents < 10 then "0" else "") ++ toString cents

/-- The share of `part` in `whole`, in percent. -/
def percentage (part whole : Int64) : String :=
  twoDecimals (part.toFloat / whole.toFloat * 100) ++ "%"

end Redstone.Text

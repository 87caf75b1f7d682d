/-
# Numbers written positionally

A number is written with the fewest digits that identify it, always
positionally: zeros fill the places up to the point, no exponent is ever used,
and a whole number has no point.
-/

import TypeInference.Numeral.Shortest

namespace TypeInference

/-- Remove trailing zeros from a list of digits. -/
def dropTrailingZeros (digits : List Char) : List Char :=
  (digits.reverse.dropWhile (· == '0')).reverse

namespace Decimal

/-- The whole part and the fractional digits of a decimal. -/
def places (d : Decimal) : List Char × List Char :=
  let digits := Nat.toDigits 10 d.digits
  if 0 ≤ d.exponent then
    (digits ++ List.replicate d.exponent.toNat '0', [])
  else
    let fraction := (-d.exponent).toNat
    let padded := List.replicate (fraction + 1 - digits.length) '0' ++ digits
    let whole := padded.length - fraction
    (padded.take whole, dropTrailingZeros (padded.drop whole))

/-- Positional notation, with a point only before fractional digits. -/
def positional (d : Decimal) : String :=
  match d.places with
  | (whole, []) => String.ofList whole
  | (whole, fraction) => String.ofList (whole ++ '.' :: fraction)

end Decimal

namespace Binary64

/-- The text of a number: `NaN`, `inf`, `-inf`, or a signed positional decimal. -/
def text (x : Binary64) : String :=
  if x.isNaN then "NaN"
  else
    let sign := if x.isNegative then "-" else ""
    if x.isInfinite then sign ++ "inf"
    else if x.isZero then sign ++ "0"
    else sign ++ x.magnitude.shortestDecimal.positional

end Binary64

end TypeInference

/-
# The fewest decimal digits that identify a number

The reals that round to a given double form an interval.  `shortestDecimal`
looks at decimal grids from coarse to fine and takes the first one on which a
neighbour of the value falls inside that interval.  All comparisons are exact
and use natural numbers only.
-/

import TypeInference.Numeral.Binary64

namespace TypeInference

/-- A finite magnitude `significand * 2 ^ exponent`. -/
structure Magnitude where
  significand : Nat
  exponent : Int
  /-- The gap to the next smaller magnitude is half the gap to the next larger one. -/
  narrowBelow : Bool
  deriving DecidableEq, Repr

/-- A decimal `digits * 10 ^ exponent`. -/
structure Decimal where
  digits : Nat
  exponent : Int
  deriving DecidableEq, Repr

/-- The power of two with a given exponent, or one if the exponent is negative. -/
def twos (exponent : Int) : Nat := Nat.pow 2 exponent.toNat

/-- The power of ten with a given exponent, or one if the exponent is negative. -/
def tens (exponent : Int) : Nat := Nat.pow 10 exponent.toNat

/-- Compare `a * 10 ^ i` with `b * 2 ^ j` by clearing the negative powers. -/
def compareScaled (a : Nat) (i : Int) (b : Nat) (j : Int) : Ordering :=
  compare (a * tens i * twos (-j)) (b * twos j * tens (-i))

/-- The magnitude of a finite number. -/
def Binary64.magnitude (x : Binary64) : Magnitude :=
  if x.exponentField == 0 then
    ⟨x.fractionField, -1074, false⟩
  else
    ⟨twos 52 + x.fractionField, (x.exponentField : Int) - 1075,
      x.fractionField == 0 && x.exponentField > 1⟩

namespace Magnitude

/-- Whether a decimal lies among the reals that round to this magnitude. -/
def readsBack (x : Magnitude) (d : Decimal) : Bool :=
  let lower := 4 * x.significand - if x.narrowBelow then 1 else 2
  let upper := 4 * x.significand + 2
  let endsIncluded := x.significand % 2 == 0
  let aboveLower := match compareScaled d.digits d.exponent lower (x.exponent - 2) with
    | .gt => true
    | .eq => endsIncluded
    | .lt => false
  let belowUpper := match compareScaled d.digits d.exponent upper (x.exponent - 2) with
    | .lt => true
    | .eq => endsIncluded
    | .gt => false
  aboveLower && belowUpper

/-- The quotient of the magnitude by `10 ^ grid`, rounded down. -/
def floorOn (x : Magnitude) (grid : Int) : Nat :=
  x.significand * twos x.exponent * tens (-grid) / (twos (-x.exponent) * tens grid)

/-- The nearer of the two neighbours on a decimal grid; an exact tie goes up. -/
def nearerOn (x : Magnitude) (grid : Int) : Nat :=
  let below := x.floorOn grid
  match compareScaled (2 * below + 1) grid (2 * x.significand) x.exponent with
  | .gt => below
  | _ => below + 1

/-- The neighbour on a decimal grid that reads back, the nearer one if both do. -/
def hitOn (x : Magnitude) (grid : Int) : Option Decimal :=
  let below : Decimal := ⟨x.floorOn grid, grid⟩
  let above : Decimal := ⟨x.floorOn grid + 1, grid⟩
  match x.readsBack below, x.readsBack above with
  | true, true => some ⟨x.nearerOn grid, grid⟩
  | true, false => some below
  | false, true => some above
  | false, false => none

/-- The first hit on the grids from `10 ^ grid` downward. -/
def firstHit (x : Magnitude) : Nat → Int → Option Decimal
  | 0, _ => none
  | steps + 1, grid =>
      match x.hitOn grid with
      | some d => some d
      | none => x.firstHit steps (grid - 1)

/-- The exact decimal value. -/
def exact (x : Magnitude) : Decimal :=
  if 0 ≤ x.exponent then
    ⟨x.significand * twos x.exponent, 0⟩
  else
    ⟨x.significand * Nat.pow 5 (-x.exponent).toNat, x.exponent⟩

/-- A power of ten above every double of the same binary exponent, and not far above. -/
def coarsestGrid (x : Magnitude) : Int :=
  ((x.significand.log2 : Int) + 1 + x.exponent) * 30103 / 100000 + 1

/-- The decimal with the fewest digits that rounds to this magnitude. -/
def shortestDecimal (x : Magnitude) : Decimal :=
  (x.firstHit 20 x.coarsestGrid).getD x.exact

end Magnitude

end TypeInference

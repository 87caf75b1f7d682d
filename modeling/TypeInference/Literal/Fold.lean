/-
# Operators on literal values

`Literal.fold` evaluates an operator whose operands are both known.  It has no
answer for operands of the wrong kind, nor for a division by zero, which is
left to the running program.
-/

import TypeInference.Literal.Basic
import TypeInference.Operator

namespace TypeInference.Literal

/-- Equality as the program sees it; values of different kinds are not compared. -/
def equal? : Literal → Literal → Option Bool
  | .int a, .int b => some (a == b)
  | .num a, .num b => some (a.numericEq b)
  | .bool a, .bool b => some (a == b)
  | .str a, .str b => some (a == b)
  | .none, .none => some true
  | _, _ => Option.none

/-- The value of an operator applied to two known operands, if it has one. -/
def fold : Operator → Literal → Literal → Option Literal
  | .add, .num a, .num b => some (.num (a.add b))
  | .add, .str a, .str b => some (.str (a ++ b))
  | .sub, .num a, .num b => some (.num (a.sub b))
  | .mul, .num a, .num b => some (.num (a.mul b))
  | .div, .num a, .num b => if b.isZero then Option.none else some (.num (a.div b))
  | .lt, .num a, .num b => some (.bool (a.numericLt b))
  | .gt, .num a, .num b => some (.bool (b.numericLt a))
  | .le, .num a, .num b => some (.bool (a.numericLe b))
  | .ge, .num a, .num b => some (.bool (b.numericLe a))
  | .lt, .str a, .str b => some (.bool (decide (a < b)))
  | .gt, .str a, .str b => some (.bool (decide (b < a)))
  | .le, .str a, .str b => some (.bool (decide (a ≤ b)))
  | .ge, .str a, .str b => some (.bool (decide (b ≤ a)))
  | .eq, a, b => (equal? a b).map .bool
  | .ne, a, b => (equal? a b).map fun same => .bool !same
  | .and, .bool a, .bool b => some (.bool (a && b))
  | .or, .bool a, .bool b => some (.bool (a || b))
  | _, _, _ => Option.none

end TypeInference.Literal

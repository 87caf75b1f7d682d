/-
# Binary operators

The operators as they are written, and the split between those that compare
their operands and those that compute with them.
-/

namespace TypeInference

/-- The binary operators of the language. -/
inductive Operator where
  | add
  | sub
  | mul
  | div
  | lt
  | gt
  | le
  | ge
  | eq
  | ne
  | and
  | or
  deriving DecidableEq, Repr

namespace Operator

/-- How an operator is written. -/
def symbol : Operator → String
  | .add => "+"
  | .sub => "-"
  | .mul => "*"
  | .div => "/"
  | .lt => "<"
  | .gt => ">"
  | .le => "<="
  | .ge => ">="
  | .eq => "=="
  | .ne => "!="
  | .and => "and"
  | .or => "or"

/-- Whether an operator compares its operands. -/
def isComparison : Operator → Bool
  | .lt | .gt | .le | .ge | .eq | .ne => true
  | .add | .sub | .mul | .div | .and | .or => false

end Operator

end TypeInference

/-
# Literal values

The values a program text can spell out.  Equality is identity: numbers are
compared by their bits.
-/

import TypeInference.Numeral.Positional
import TypeInference.Text.Quoted

namespace TypeInference

/-- A value known at compile time. -/
inductive Literal where
  /-- An exit code. -/
  | int (value : Int64)
  | num (value : Binary64)
  | bool (value : Bool)
  | str (value : String)
  /-- The absence of a value. -/
  | none
  deriving DecidableEq, Inhabited, Repr

/-- How a value is shown: numbers in decimal, strings in quotes. -/
def Literal.text : Literal → String
  | .int value => Int.repr value.toInt
  | .num value => value.text
  | .bool true => "true"
  | .bool false => "false"
  | .str value => Text.quoted value
  | .none => "None"

end TypeInference

/-
# Printed types

Logs show variables by number; messages for users give them letters, chosen so
that one variable has one name in all the types of a message.  There is a
printer for logs and one for messages, and a message without variables is
printed as in a log.
-/

import TypeInference.KeyMap
import TypeInference.Ty.Variable

namespace TypeInference

namespace Ty

mutual

/-- A type's text with numbered variables. -/
def text : Ty → String
  | .var v => VarId.text v
  | .func params result => "(" ++ paramsText 0 params ++ ") -> " ++ result.text
  | .const base value => "const " ++ base.text ++ " = " ++ value.text
  | ty => ty.tag.text

/-- The texts of parameters from the `index`-th on, with a comma before each of
them but the very first. -/
def paramsText (index : Nat) : List Ty → String
  | [] => ""
  | first :: rest =>
      (if index > 0 then ", " else "") ++ first.text ++ paramsText (index + 1) rest

end

mutual

/-- A type's text with the names of a map; variables without a name keep their
number. -/
def textNamed (names : KeyMap VarId String) : Ty → String
  | .var v => (names.find? v).getD (VarId.text v)
  | .func params result =>
      "(" ++ ", ".intercalate (textsNamed names params) ++ ") -> " ++ result.textNamed names
  | .const base value => "const " ++ base.textNamed names ++ " = " ++ value.text
  | leaf => leaf.text

/-- The texts of several types with the names of a map. -/
def textsNamed (names : KeyMap VarId String) : List Ty → List String
  | [] => []
  | first :: rest => first.textNamed names :: textsNamed names rest

end

end Ty

/-- The `index`-th letter name: `a` to `z`, then `a1` to `z1`, and so on. -/
def letterName (index : Nat) : String :=
  let letter := String.singleton (Char.ofNat ('a'.toNat + index % 26))
  if index / 26 = 0 then letter else letter ++ Nat.repr (index / 26)

/-- Letter names for the variables of a list, in turn. -/
def letterNames (vars : List VarId) : KeyMap VarId String :=
  vars.zipIdx.foldl (fun names entry => names.insert entry.1 (letterName entry.2)) .empty

namespace Ty

/-- The variables of two types that are printed together, in ascending order. -/
def sharedVars (left right : Ty) : List VarId :=
  ascendingDistinct (left.varOccurrences ++ right.varOccurrences)

/-- The texts of two types that share one choice of letter names. -/
def lettered (left right : Ty) : String × String :=
  let vars := sharedVars left right
  if vars.isEmpty then (left.text, right.text)
  else (left.textNamed (letterNames vars), right.textNamed (letterNames vars))

/-- The text of one type with letter names. -/
def letteredText (ty : Ty) : String := (lettered ty .none).1

end Ty

end TypeInference

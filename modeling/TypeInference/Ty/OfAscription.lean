/-
# The type a written type stands for

Names are looked up and every hole becomes a new variable.  The parts of a
function type are taken from left to right, so the first unknown name is the
one that is reported; variables drawn before it stay drawn.
-/

import TypeInference.Source.Ascription
import TypeInference.TypeError
import TypeInference.VarSupply

namespace TypeInference

/-- The type that a name stands for. -/
def Ty.named (name : String) : Except TypeError Ty :=
  match name with
  | "int" => .ok .int
  | "any" => .ok .any
  | "None" => .ok .none
  | name =>
      match Ty.primitiveNamed? name with
      | some ty => .ok ty
      | Option.none => .error (.unknownTypeName name)

namespace Ascription

mutual

/-- The type that a written type stands for, with new variables for its holes. -/
def toTy (supply : VarSupply) (pool : VarPool) :
    Ascription → Except Fault (Except TypeError Ty × VarSupply × VarPool)
  | .named name => .ok (Ty.named name, supply, pool)
  | .hole => do
      let (v, supply, pool) ← supply.draw pool
      .ok (.ok (.var v), supply, pool)
  | .func params result => do
      let (params', supply, pool) ← toTys supply pool params
      match params' with
      | .error error => .ok (.error error, supply, pool)
      | .ok params' =>
          let (result', supply, pool) ← result.toTy supply pool
          .ok (result'.map (.func params'), supply, pool)

/-- The types that several written types stand for, up to the first unknown name. -/
def toTys (supply : VarSupply) (pool : VarPool) :
    List Ascription → Except Fault (Except TypeError (List Ty) × VarSupply × VarPool)
  | [] => .ok (.ok [], supply, pool)
  | first :: rest => do
      let (first', supply, pool) ← first.toTy supply pool
      match first' with
      | .error error => .ok (.error error, supply, pool)
      | .ok first' =>
          let (rest', supply, pool) ← toTys supply pool rest
          .ok (rest'.map (first' :: ·), supply, pool)

end

end Ascription

end TypeInference

/-
# Types of expressions

A check reports its own failure and answers `error` for the expression, which
keeps the checks around it quiet.
-/

import TypeInference.Literal.Fold
import TypeInference.Session.Obligation
import TypeInference.Session.Unification

namespace TypeInference.Session

/-- The operand type of a logical operator: both operands are checked, and the
answer is missing if either was `error`. -/
def logicalType (s : Session) (lhs rhs : Ty) (origin : NodeId) :
    Except Fault (Option Ty × Session) := do
  let (left, s) ← s.expect .bool lhs origin
  let (right, s) ← s.expect .bool rhs origin
  .ok (if left.isError || right.isError then none else some .bool, s)

/-- The type of an operator with a trait: the operands must agree, and the left
one must have the trait. -/
def traitType (s : Session) (operator : Operator) (traitName : String) (lhs rhs : Ty)
    (origin : NodeId) : Except Fault (Option Ty × Session) := do
  let (agreed, s) ← s.unify lhs rhs
  match agreed with
  | .error error => .ok (none, s.reportError error origin)
  | .ok () =>
      let (satisfied, s) ← s.requireTrait lhs traitName origin
      match satisfied with
      | .error error => .ok (none, s.reportError error origin)
      | .ok () =>
          if operator.isComparison then .ok (some .bool, s)
          else .ok (some (← s.apply lhs).erase, s)

/-- The type of an operator applied to two operands, before values are looked at. -/
def operatorType (s : Session) (operator : Operator) (lhs rhs : Ty) (origin : NodeId) :
    Except Fault (Option Ty × Session) :=
  match operator.trait? with
  | none => s.logicalType lhs rhs origin
  | some traitName => s.traitType operator traitName lhs rhs origin

/-- What is known of an operator applied to two operands.  When both values are
known and the operator has a value for them, that literal is the answer. -/
def binary (s : Session) (operator : Operator) (lhs rhs : Inferred) (origin : NodeId) :
    Except Fault (Inferred × Session) := do
  let (ty, s) ← s.operatorType operator lhs.ty rhs.ty origin
  match ty with
  | none => .ok (.error, s)
  | some ty =>
      let folded := do
        let left ← lhs.value
        let right ← rhs.value
        Literal.fold operator left right
      match folded with
      | some value => .ok (.ofLiteral value, s)
      | none => .ok (.ofTy ty, s)

/-- The type of a call.  The callee must agree with a function from the argument
types to a new variable. -/
def call (s : Session) (pool : VarPool) (callee : Ty) (args : List Ty) (origin : NodeId) :
    Except Fault (Ty × Session × VarPool) := do
  let (v, s, pool) ← s.freshVar pool
  let (outcome, s) ← s.unify callee (.func (Ty.eraseAll args) (.var v))
  match outcome with
  | .ok () => .ok (← s.apply (.var v), s, pool)
  | .error error => .ok (.error, s.reportError error origin, pool)

end TypeInference.Session

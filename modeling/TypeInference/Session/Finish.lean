/-
# The end of a session

At the end nothing may be open.  Obligations that still wait and expressions
whose types still have variables are reported, and their variables are
poisoned, so that one variable is reported once.  A unit is handed on only if
nothing was reported at all.
-/

import TypeInference.Session.Obligation

namespace TypeInference

/-- A unit that was checked without a report. -/
structure CheckedUnit where
  symbols : List ResolvedSymbol
  /-- The types of the recorded expressions, in ascending order. -/
  exprs : List (ExprId × Inferred)
  deriving DecidableEq, Repr

namespace Session

/-- Report a type that is still open, and poison its variables. -/
def reportOpen (s : Session) (subject : String) (ty : Ty) (origin : NodeId) :
    Except Fault Session :=
  (s.reportError (.unresolved subject ty) origin).poison ty

/-- Settle an obligation that still waits at the end. -/
def settleObligation (s : Session) (obligation : Obligation) : Except Fault Session := do
  let ty ← s.apply obligation.ty
  if ty.isClosed then
    .ok s
  else
    s.reportOpen ("an operand requiring `" ++ obligation.traitName ++ "`") ty obligation.origin

/-- The final types of recorded expressions, in order; open ones are reported
and left out. -/
def settleExprs (s : Session) :
    List (ExprId × Inferred) → Except Fault (List (ExprId × Inferred) × Session)
  | [] => .ok ([], s)
  | (expr, inferred) :: rest => do
      let ty ← s.apply inferred.ty
      if ty.isClosed then
        let (others, s) ← s.settleExprs rest
        .ok ((expr, { inferred with ty }) :: others, s)
      else
        let node : NodeId := .expr expr
        let s ← s.reportOpen ("expression " ++ node.text) ty node
        s.settleExprs rest

/-- Settle everything that may be open: obligations first, then expressions. -/
def settle (s : Session) : Except Fault (List (ExprId × Inferred) × Session) := do
  let s ← s.dischargeTraits
  let s ← s.obligations.foldlM settleObligation { s with obligations := [] }
  s.settleExprs s.exprs.entries

/-- End a session: a checked unit, or the diagnostics of all reports. -/
def finish (s : Session) : Except Fault (Except (List Diagnostic) CheckedUnit) := do
  let (exprs, s) ← s.settle
  if s.hasErrors then .ok (.error s.diagnostics)
  else .ok (.ok ⟨s.resolved, exprs⟩)

end Session

end TypeInference

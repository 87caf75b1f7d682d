/-
# The state of an inference session

A session checks one unit.  It owns a substitution, the traits it was started
with, and what has been collected so far: reports, obligations that wait for a
variable, types of expressions, and symbols of closed scopes.  Operations are
functions from a session to a result and the next session; a fault ends the
run and leaves no session behind.
-/

import TypeInference.Registry
import TypeInference.Symbol
import TypeInference.Ty.OfAscription
import TypeInference.Unify.Engine
import TypeInference.VarSupply

namespace TypeInference

/-- A trait required of a type that was a variable at the time. -/
structure Obligation where
  ty : Ty
  traitName : String
  origin : NodeId
  deriving DecidableEq, Repr

/-- How a session is started. -/
structure SessionOptions where
  /-- Keep a trace. -/
  trace : Bool := false
  /-- How many events the trace has room for. -/
  traceLimit : Nat := 1024
  /-- Number variables from here instead of drawing on the shared pool. -/
  varOffset : Option Nat := none
  deriving DecidableEq, Repr

/-- The state of the inference for one unit. -/
structure Session where
  subst : Subst
  registry : Registry
  supply : VarSupply
  /-- In the order they were made. -/
  reports : List Report
  /-- In the order they were deferred. -/
  obligations : List Obligation
  exprs : KeyMap ExprId Inferred
  /-- The symbols of all closed scopes, in the order of closing. -/
  resolved : List ResolvedSymbol
  trace : Option Trace

namespace Session

/-- A session with nothing in it. -/
def new (registry : Registry) (options : SessionOptions) (pool : VarPool) :
    Except Fault (Session × VarPool) := do
  let (supply, pool) ← VarSupply.new options.varOffset pool
  .ok ({ subst := .empty, registry, supply, reports := [], obligations := [],
         exprs := .empty, resolved := [],
         trace := if options.trace then some (.empty options.traceLimit) else none }, pool)

/-- Draw a new variable. -/
def freshVar (s : Session) (pool : VarPool) : Except Fault (VarId × Session × VarPool) := do
  let (v, supply, pool) ← s.supply.draw pool
  .ok (v, { s with supply }, pool)

/-- Draw several new variables. -/
def freshVars (s : Session) (pool : VarPool) (count : Nat) :
    Except Fault (List VarId × Session × VarPool) := do
  let (vs, supply, pool) ← s.supply.drawMany pool count
  .ok (vs, { s with supply }, pool)

/-- The type that a written type stands for, with new variables for its holes. -/
def resolveAscription (s : Session) (pool : VarPool) (written : Ascription) :
    Except Fault (Except TypeError Ty × Session × VarPool) := do
  let (ty, supply, pool) ← written.toTy s.supply pool
  .ok (ty, { s with supply }, pool)

/-- A type with all current bindings used. -/
def apply (s : Session) (ty : Ty) : Except Fault Ty := s.subst.apply ty

/-- Add a report. -/
def report (s : Session) (report : Report) : Session :=
  { s with reports := s.reports ++ [report] }

/-- Add a report of an error without a place. -/
def reportError (s : Session) (error : TypeError) (origin : NodeId) : Session :=
  s.report (.ofError error origin)

/-- Whether anything has been reported. -/
def hasErrors (s : Session) : Bool := !s.reports.isEmpty

/-- The diagnostics of all reports, in order. -/
def diagnostics (s : Session) : List Diagnostic := s.reports.map Report.toDiagnostic

/-- The numbered lines of the trace; none when tracing is off. -/
def traceLines (s : Session) : List TraceLine := (s.trace.map Trace.lines).getD []

/-- Forget the events of the trace. -/
def clearTrace (s : Session) : Session := { s with trace := s.trace.map Trace.clear }

/-- Add events to the trace, if there is one. -/
def recordEvents (s : Session) (events : List Event) : Session :=
  { s with trace := s.trace.map (·.record events) }

/-- Remember the type of an expression, replacing an earlier one. -/
def recordExpr (s : Session) (expr : ExprId) (inferred : Inferred) : Session :=
  { s with exprs := s.exprs.insert expr inferred }

/-- The remembered type of an expression, with all current bindings used. -/
def exprType? (s : Session) (expr : ExprId) : Except Fault (Option Inferred) :=
  match s.exprs.find? expr with
  | none => .ok none
  | some inferred => do
      let ty ← s.apply inferred.ty
      .ok (some { inferred with ty })

/-- Bind every variable still open in a type to `error`, so that what else waits
for it is not reported again. -/
def poison (s : Session) (ty : Ty) : Except Fault Session := do
  let applied ← s.apply ty
  let subst ← applied.freeVars.foldlM (fun subst v => subst.bind v .error) s.subst
  .ok { s with subst }

end Session

end TypeInference

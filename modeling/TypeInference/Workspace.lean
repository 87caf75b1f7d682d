/-
# A session at work

A workspace is everything one unit is checked with: a session, the unit's
declarations, the table of open scopes, and the pool that all sessions share.
A command is one call of an operation, so that a whole run is a list of
commands.
-/

import TypeInference.Session.Expression
import TypeInference.Session.Scope

namespace TypeInference

/-- A session together with the declarations and scopes of its unit. -/
structure Workspace where
  session : Session
  declarations : Declarations
  table : SymbolTable
  pool : VarPool

/-- One call of an operation that may change a workspace. -/
inductive Command where
  | freshVars (count : Nat)
  | freshType
  | unify (expected actual : Ty)
  | expect (expected actual : Ty) (origin : NodeId)
  | requireTrait (ty : Ty) (traitName : String) (origin : NodeId)
  | dischargeTraits
  | binary (operator : Operator) (lhs rhs : Inferred) (origin : NodeId)
  | call (callee : Ty) (args : List Ty) (origin : NodeId)
  | resolveAscription (written : Ascription)
  | recordExpr (expr : ExprId) (inferred : Inferred)
  | report (report : Report)
  | takeTrace
  | declare (name : String) (span : Span) (ascription : Option (Located Ascription))
  | publish (symbol : Symbol)
  | lookupOrUnknown (name : String) (origin : NodeId) (span : Option Span)
  | pushScope
  | popScope
  | closeScope

/-- What an operation answers. -/
inductive Reply where
  | done
  | vars (ids : List VarId)
  | ty (ty : Ty)
  | inferred (inferred : Inferred)
  | outcome (outcome : Except TypeError Unit)
  | ascribed (ty : Except TypeError Ty)
  | lines (lines : List TraceLine)
  | declared (declaration : Declaration)
  | symbol (symbol : Symbol)
  | pushed
  | popped (scope : Option Scope)
  | closed (symbols : List ResolvedSymbol)

namespace Workspace

/-- A workspace with one open scope and nothing else. -/
def new (registry : Registry) (options : SessionOptions) (pool : VarPool) :
    Except Fault Workspace := do
  let (session, pool) ← Session.new registry options pool
  .ok { session, declarations := .empty, table := .new, pool }

/-- Carry out one command. -/
def exec (w : Workspace) : Command → Except Fault (Reply × Workspace)
  | .freshVars count => do
      let (ids, session, pool) ← w.session.freshVars w.pool count
      .ok (.vars ids, { w with session, pool })
  | .freshType => do
      let (v, session, pool) ← w.session.freshVar w.pool
      .ok (.ty (.var v), { w with session, pool })
  | .unify expected actual => do
      let (outcome, session) ← w.session.unify expected actual
      .ok (.outcome outcome, { w with session })
  | .expect expected actual origin => do
      let (ty, session) ← w.session.expect expected actual origin
      .ok (.ty ty, { w with session })
  | .requireTrait ty traitName origin => do
      let (outcome, session) ← w.session.requireTrait ty traitName origin
      .ok (.outcome outcome, { w with session })
  | .dischargeTraits => do
      let session ← w.session.dischargeTraits
      .ok (.done, { w with session })
  | .binary operator lhs rhs origin => do
      let (inferred, session) ← w.session.binary operator lhs rhs origin
      .ok (.inferred inferred, { w with session })
  | .call callee args origin => do
      let (ty, session, pool) ← w.session.call w.pool callee args origin
      .ok (.ty ty, { w with session, pool })
  | .resolveAscription written => do
      let (ty, session, pool) ← w.session.resolveAscription w.pool written
      .ok (.ascribed ty, { w with session, pool })
  | .recordExpr expr inferred =>
      .ok (.done, { w with session := w.session.recordExpr expr inferred })
  | .report report => .ok (.done, { w with session := w.session.report report })
  | .takeTrace =>
      .ok (.lines w.session.traceLines, { w with session := w.session.clearTrace })
  | .declare name span ascription =>
      let (declaration, declarations) := w.declarations.declare name span ascription
      .ok (.declared declaration, { w with declarations })
  | .publish symbol => do
      let table ← w.table.declare symbol
      .ok (.symbol symbol, { w with table })
  | .lookupOrUnknown name origin span =>
      let (symbol, session) := w.session.lookupOrUnknown w.table name origin span
      .ok (.symbol symbol, { w with session })
  | .pushScope => .ok (.pushed, { w with table := w.table.push })
  | .popScope =>
      match w.table.pop? with
      | none => .ok (.popped none, w)
      | some (scope, table) => .ok (.popped (some scope), { w with table })
  | .closeScope => do
      let (symbols, table, session, pool) ← w.session.closeScope w.pool w.table
      .ok (.closed symbols, { w with table, session, pool })

/-- Carry out commands in order. -/
def run (w : Workspace) : List Command → Except Fault (List Reply × Workspace)
  | [] => .ok ([], w)
  | command :: rest => do
      let (reply, w) ← w.exec command
      let (replies, w) ← w.run rest
      .ok (reply :: replies, w)

end Workspace

end TypeInference

/-
# Closing a scope

When a scope is closed, written types are first made to agree with inferred
ones, so that a written type can still settle an open variable.  Obligations
are then taken up, and every symbol gets its final type.  A symbol whose
written type failed is `error` without a second report.
-/

import TypeInference.Session.Obligation
import TypeInference.Session.Unification

namespace TypeInference.Session

/-- The symbol a name refers to, or the stand-in after a report. -/
def lookupOrUnknown (s : Session) (table : SymbolTable) (name : String) (origin : NodeId)
    (span : Option Span) : Symbol × Session :=
  match table.lookup name with
  | some symbol => (symbol, s)
  | none =>
      (.unknown, s.report { Report.ofError (.unknownIdentifier name) origin with span })

/-- The type of a symbol with all bindings used, provided nothing in it is open. -/
def resolveSymbol (s : Session) (symbol : Symbol) : Except Fault (Except TypeError Ty) := do
  let ty ← s.apply symbol.ty
  if ty.isClosed then .ok (.ok ty)
  else .ok (.error (.unresolved ("`" ++ symbol.name ++ "`") ty))

/-- Make the written type of a symbol agree with its inferred type.  The answer
says whether that went without a report. -/
def reconcile (s : Session) (pool : VarPool) (decl : DeclId) (symbol : Symbol) :
    Except Fault (Bool × Session × VarPool) :=
  match symbol.ascription with
  | none => .ok (true, s, pool)
  | some written => do
      let (annotated, s, pool) ← s.resolveAscription pool written.value
      match annotated with
      | .error error =>
          .ok (false, s.report ⟨error, .decl decl, some written.span, []⟩, pool)
      | .ok annotated =>
          let (outcome, s) ← s.unify annotated symbol.ty
          match outcome with
          | .ok () => .ok (true, s, pool)
          | .error error =>
              let labels :=
                if symbol.span.isSynthetic then [] else [⟨symbol.span, "declared here"⟩]
              .ok (false, s.report ⟨error, .decl decl, some written.span, labels⟩, pool)

/-- Reconcile symbols in order.  The answer lists the declarations that failed. -/
def reconcileAll (s : Session) (pool : VarPool) :
    List (DeclId × Symbol) → Except Fault (List DeclId × Session × VarPool)
  | [] => .ok ([], s, pool)
  | (decl, symbol) :: rest => do
      let (agreed, s, pool) ← s.reconcile pool decl symbol
      let (failed, s, pool) ← s.reconcileAll pool rest
      .ok (if agreed then failed else decl :: failed, s, pool)

/-- The final form of a symbol.  An open type is reported, and its variables are
poisoned. -/
def settleSymbol (s : Session) (failed : List DeclId) (decl : DeclId) (symbol : Symbol) :
    Except Fault (ResolvedSymbol × Session) :=
  if failed.contains decl then
    .ok (symbol.resolved decl .error, s)
  else do
    match ← s.resolveSymbol symbol with
    | .ok ty => .ok (symbol.resolved decl ty.erase, s)
    | .error error =>
        let s ← (s.report ⟨error, .decl decl, some symbol.span, []⟩).poison symbol.ty
        .ok (symbol.resolved decl .error, s)

/-- The final forms of symbols, in order. -/
def settleSymbols (s : Session) (failed : List DeclId) :
    List (DeclId × Symbol) → Except Fault (List ResolvedSymbol × Session)
  | [] => .ok ([], s)
  | (decl, symbol) :: rest => do
      let (first, s) ← s.settleSymbol failed decl symbol
      let (others, s) ← s.settleSymbols failed rest
      .ok (first :: others, s)

/-- Give final types to the symbols of a scope that has been taken off the table. -/
def settleScope (s : Session) (pool : VarPool) (scope : Scope) :
    Except Fault (List ResolvedSymbol × Session × VarPool) := do
  let (failed, s, pool) ← s.reconcileAll pool scope.symbols.entries
  let s ← s.dischargeTraits
  let (symbols, s) ← s.settleSymbols failed scope.symbols.entries
  .ok (symbols, { s with resolved := s.resolved ++ symbols }, pool)

/-- Close the innermost scope and return the final forms of its symbols. -/
def closeScope (s : Session) (pool : VarPool) (table : SymbolTable) :
    Except Fault (List ResolvedSymbol × SymbolTable × Session × VarPool) :=
  match table.pop? with
  | none => .error .noScopeToClose
  | some (scope, table) => do
      let (symbols, s, pool) ← s.settleScope pool scope
      .ok (symbols, table, s, pool)

end TypeInference.Session

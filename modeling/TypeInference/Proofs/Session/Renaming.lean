/-
# A session with other numbers

A session, with all that it has collected, is renamed part by part.  The
operations that draw no variables go through a renaming that keeps the order of
variables: there is one equation for each of them, which says that the operation
on the renamed session returns the renamed result, or the renamed fault.
-/

import TypeInference.Proofs.Unify.Renaming
import TypeInference.Session.Expression
import TypeInference.Session.Finish
import TypeInference.Session.Scope

namespace TypeInference

variable (r : VarId ↪o VarId)

/-- What is known of an expression, with other numbers. -/
def Inferred.rename (inferred : Inferred) : Inferred :=
  { inferred with ty := inferred.ty.rename r }

/-- A result or the error in its place, with other numbers. -/
def renameOutcome {α β : Type} (f : α → β) : Except TypeError α → Except TypeError β
  | .ok a => .ok (f a)
  | .error error => .error (error.rename r)

/-- A report with other numbers. -/
def Report.rename (report : Report) : Report := { report with error := report.error.rename r }

/-- An obligation with other numbers. -/
def Obligation.rename (obligation : Obligation) : Obligation :=
  { obligation with ty := obligation.ty.rename r }

/-- A step of a trace with other numbers for its variables. -/
def TraceStep.rename (s : TraceStep) : TraceStep := { s with event := s.event.rename r }

/-- A trace with other numbers for its variables. -/
def Trace.rename (trace : Trace) : Trace :=
  { trace with steps := trace.steps.map (TraceStep.rename r) }

/-- A symbol with other numbers. -/
def Symbol.rename (symbol : Symbol) : Symbol :=
  { symbol with inferred := symbol.inferred.rename r }

/-- The final form of a symbol with other numbers. -/
def ResolvedSymbol.rename (resolved : ResolvedSymbol) : ResolvedSymbol :=
  { resolved with ty := resolved.ty.rename r }

/-- A scope with other numbers. -/
def Scope.rename (scope : Scope) : Scope :=
  { scope with symbols := scope.symbols.mapValues (Symbol.rename r) }

/-- A table with other numbers. -/
def SymbolTable.rename (table : SymbolTable) : SymbolTable :=
  ⟨table.scopes.map (Scope.rename r)⟩

/-- A supply that hands out other numbers.  Where it ends is not renamed. -/
def VarSupply.rename (supply : VarSupply) : VarSupply :=
  { supply with next := r supply.next }

/-- A session with other numbers. -/
def Session.rename (s : Session) : Session where
  subst := s.subst.rename r
  registry := s.registry
  supply := s.supply.rename r
  reports := s.reports.map (Report.rename r)
  obligations := s.obligations.map (Obligation.rename r)
  exprs := s.exprs.mapValues (Inferred.rename r)
  resolved := s.resolved.map (ResolvedSymbol.rename r)
  trace := s.trace.map (Trace.rename r)

/-- A diagnostic does not show the numbers of variables. -/
@[simp] theorem Report.toDiagnostic_rename (report : Report) :
    (report.rename r).toDiagnostic = report.toDiagnostic := by
  simp only [toDiagnostic, rename, category, TypeError.category_rename, TypeError.message_rename,
    TypeError.help?_rename]

theorem Trace.push_rename (trace : Trace) (event : Event) :
    (trace.rename r).push (event.rename r) = (trace.push event).rename r := by
  rw [push, push, rename, List.length_map]
  split
  · rfl
  · simp [rename, TraceStep.rename]

theorem Trace.record_rename (trace : Trace) (batch : List Event) :
    (trace.rename r).record (batch.map (Event.rename r)) = (trace.record batch).rename r := by
  induction batch generalizing trace with
  | nil => rfl
  | cons event rest ih =>
      rw [List.map_cons, record, List.foldl_cons, push_rename]
      exact ih (trace.push event)

theorem Ty.verdict_rename (ty : Ty) : (ty.rename r).verdict = ty.verdict := by
  rw [verdict, verdict, mentions_rename, mentions_rename]

theorem Symbol.resolved_rename (symbol : Symbol) (decl : DeclId) (ty : Ty) :
    (symbol.rename r).resolved decl (ty.rename r) = (symbol.resolved decl ty).rename r := by
  rw [resolved, Ty.verdict_rename]
  rfl

theorem Inferred.rename_ofLiteral (value : Literal) :
    (Inferred.ofLiteral value).rename r = .ofLiteral value := by
  cases value <;> rfl

variable {r} in
theorem Inferred.rename_of_isClosed {inferred : Inferred} (h : inferred.ty.isClosed = true) :
    inferred.rename r = inferred := by
  rw [rename, Ty.rename_of_isClosed h]

variable {r} in
theorem ResolvedSymbol.rename_of_isClosed {resolved : ResolvedSymbol}
    (h : resolved.ty.isClosed = true) : resolved.rename r = resolved := by
  rw [rename, Ty.rename_of_isClosed h]

namespace Scope

variable (scope : Scope)

theorem find?_symbols_rename (decl : DeclId) :
    (scope.rename r).symbols.find? decl = (scope.symbols.find? decl).map (Symbol.rename r) :=
  KeyMap.find?_transport (fun _ _ => rfl) (Symbol.rename r) scope.symbols decl

theorem lookup_rename (name : String) :
    (scope.rename r).lookup name = (scope.lookup name).map (Symbol.rename r) := by
  show (scope.names.find? name).bind (scope.rename r).symbols.find? =
    ((scope.names.find? name).bind scope.symbols.find?).map (Symbol.rename r)
  rw [Option.map_bind]
  exact congrArg (scope.names.find? name).bind (funext (find?_symbols_rename r scope))

theorem publish_rename (decl : DeclId) (symbol : Symbol) :
    (scope.rename r).publish decl (symbol.rename r) = (scope.publish decl symbol).rename r :=
  congrArg (Scope.mk · _)
    (KeyMap.insert_transport (fun _ _ => rfl) (Symbol.rename r) scope.symbols decl symbol)

end Scope

namespace SymbolTable

variable (table : SymbolTable)

theorem findSome?_rename {find : Scope → Option Symbol}
    (h : ∀ scope, find (scope.rename r) = (find scope).map (Symbol.rename r)) :
    (table.rename r).scopes.findSome? find =
      (table.scopes.findSome? find).map (Symbol.rename r) := by
  rw [rename, List.findSome?_map, List.map_findSome?]
  exact congrArg (table.scopes.findSome? ·) (funext h)

theorem lookup_rename (name : String) :
    (table.rename r).lookup name = (table.lookup name).map (Symbol.rename r) :=
  findSome?_rename r table fun scope => scope.lookup_rename r name

theorem pop?_rename :
    (table.rename r).pop? = table.pop?.map (Prod.map (Scope.rename r) (rename r)) := by
  obtain ⟨scopes⟩ := table
  cases scopes with
  | nil => rfl
  | cons scope outer => rfl

theorem declare_rename (symbol : Symbol) :
    (table.rename r).declare (symbol.rename r) = renamed r (rename r) (table.declare symbol) := by
  obtain ⟨scopes⟩ := table
  have hget (decl : DeclId) : (SymbolTable.rename r ⟨scopes⟩).get? decl =
      (SymbolTable.get? ⟨scopes⟩ decl).map (Symbol.rename r) :=
    findSome?_rename r ⟨scopes⟩ fun scope => scope.find?_symbols_rename r decl
  have hdecl : (symbol.rename r).decl = symbol.decl := rfl
  rw [declare, declare, hdecl]
  cases symbol.decl with
  | none => rfl
  | some decl =>
      simp only [hget, Option.isSome_map]
      split
      · rfl
      · cases scopes with
        | nil => rfl
        | cons scope outer =>
            exact congrArg
              (fun first => Except.ok (SymbolTable.mk (first :: outer.map (Scope.rename r))))
              (scope.publish_rename r decl symbol)

end SymbolTable

/-- A fold over a list is renamed step by step. -/
theorem foldlM_rename {σ ι : Type} {f : σ → σ} {g : ι → ι} {step : σ → ι → Except Fault σ}
    (h : ∀ s i, step (f s) (g i) = renamed r f (step s i)) (list : List ι) (s : σ) :
    (list.map g).foldlM step (f s) = renamed r f (list.foldlM step s) := by
  induction list generalizing s with
  | nil => rfl
  | cons first rest ih =>
      rw [List.map_cons, List.foldlM_cons, List.foldlM_cons]
      exact bind_eq_renamed (h s first) ih

namespace Session

variable (s : Session)

@[simp] theorem diagnostics_rename : (s.rename r).diagnostics = s.diagnostics := by
  simp [diagnostics, rename]

theorem report_rename (report : Report) :
    (s.rename r).report (report.rename r) = (s.report report).rename r := by
  simp [Session.report, rename]

theorem reportError_rename (error : TypeError) (origin : NodeId) :
    (s.rename r).reportError (error.rename r) origin = (s.reportError error origin).rename r :=
  report_rename r s (.ofError error origin)

theorem recordExpr_rename (expr : ExprId) (inferred : Inferred) :
    (s.rename r).recordExpr expr (inferred.rename r) = (s.recordExpr expr inferred).rename r := by
  simp only [recordExpr, rename, KeyMap.mapValues]
  exact congrArg (fun exprs => Session.mk _ _ _ _ _ exprs _ _)
    (KeyMap.insert_transport (fun _ _ => rfl) (Inferred.rename r) s.exprs expr inferred)

theorem recordEvents_rename (events : List Event) :
    (s.rename r).recordEvents (events.map (Event.rename r)) = (s.recordEvents events).rename r := by
  have htrace : (s.trace.map (Trace.rename r)).map (·.record (events.map (Event.rename r))) =
      (s.trace.map (·.record events)).map (Trace.rename r) := by
    simp only [Option.map_map]
    exact congrArg (s.trace.map ·) (funext fun trace => Trace.record_rename r trace events)
  exact congrArg (fun trace => { s.rename r with trace }) htrace

theorem apply_rename (ty : Ty) :
    (s.rename r).apply (ty.rename r) = renamed r (Ty.rename r) (s.apply ty) :=
  Subst.apply_rename r s.subst ty

/-! ## Unification and traits -/

theorem unify_rename (a b : Ty) :
    (s.rename r).unify (a.rename r) (b.rename r) =
      renamed r (Prod.map (renameOutcome r id) (rename r)) (s.unify a b) := by
  have hrun : Unify.run (s.rename r).subst (a.rename r) (b.rename r) =
      (Unify.run s.subst a b).rename r := Unify.run_rename r a b s.subst
  rw [unify, unify, hrun]
  cases Unify.run s.subst a b with
  | broken fault => rfl
  | solved p =>
      have hevents := recordEvents_rename r { s with subst := p.subst } p.log.reverse
      rw [List.map_reverse] at hevents
      exact congrArg (fun t => Except.ok (Except.ok (), t)) hevents
  | failed error p =>
      have hsubst : (p.subst.rename r).rollback (s.rename r).subst.snapshot =
          (p.subst.rollback s.subst.snapshot).rename r := by
        rw [← Subst.rollback_rename]
        exact congrArg _ (Subst.snapshot_rename r s.subst)
      have hevents := recordEvents_rename r { s with subst := p.subst.rollback s.subst.snapshot }
        (p.log.reverse ++ [.rolledBack a b
          (p.subst.size - (p.subst.rollback s.subst.snapshot).size)])
      rw [List.map_append, List.map_reverse] at hevents
      simp only [Unify.Attempt.rename, Unify.Progress.rename, hsubst, Subst.size_rename]
      exact congrArg (fun t => Except.ok (Except.error (error.rename r), t)) hevents

theorem expect_rename (expected actual : Ty) (origin : NodeId) :
    (s.rename r).expect (expected.rename r) (actual.rename r) origin =
      renamed r (Prod.map (Ty.rename r) (rename r)) (s.expect expected actual origin) := by
  refine bind_eq_renamed (unify_rename r s expected actual) fun (outcome, t) => ?_
  cases outcome with
  | ok => exact bind_eq_renamed (apply_rename r t expected) fun _ => rfl
  | error error =>
      exact congrArg (fun u => Except.ok (Ty.error, u)) (reportError_rename r t error origin)

theorem traitSubject_rename (ty : Ty) :
    (s.rename r).traitSubject (ty.rename r) = renamed r (Ty.rename r) (s.traitSubject ty) := by
  refine bind_eq_renamed (Subst.resolve_rename r s.subst ty) fun head => ?_
  rw [Ty.unwrap_rename]
  exact Subst.resolve_rename r s.subst head.unwrap

theorem satisfies_rename (registry : Registry) (ty : Ty) (traitName : String) :
    registry.satisfies (ty.rename r) traitName =
      renamed r id (registry.satisfies ty traitName) := by
  rw [Registry.satisfies, Registry.satisfies, Registry.checkTrait, Registry.checkTrait,
    Ty.unwrap_rename, Ty.tag_rename]
  cases registry.traits.find? traitName with
  | none => rfl
  | some tags => rfl

theorem requireTrait_rename (ty : Ty) (traitName : String) (origin : NodeId) :
    (s.rename r).requireTrait (ty.rename r) traitName origin =
      renamed r (Prod.map (renameOutcome r id) (rename r))
        (s.requireTrait ty traitName origin) := by
  have hregistry : (s.rename r).registry = s.registry := rfl
  rw [requireTrait, requireTrait, hregistry]
  split
  · refine bind_eq_renamed (traitSubject_rename r s ty) fun subject => ?_
    have hasked : (do
        if ← s.registry.satisfies (subject.rename r) traitName then
          .ok (.ok (), s.rename r)
        else
          .ok (.error (.unsatisfied (← (s.rename r).apply (subject.rename r)) traitName),
            s.rename r) : Except Fault (Except TypeError Unit × Session)) =
        renamed r (Prod.map (renameOutcome r id) (rename r)) (do
          if ← s.registry.satisfies subject traitName then
            .ok (.ok (), s)
          else
            .ok (.error (.unsatisfied (← s.apply subject) traitName), s)) := by
      refine bind_eq_renamed (satisfies_rename r s.registry subject traitName) fun answer => ?_
      cases answer with
      | true => rfl
      | false => exact bind_eq_renamed (apply_rename r s subject) fun _ => rfl
    cases subject with
    | any | error => rfl
    | var v =>
        simp only [Ty.rename_var, renamed, Prod.map, renameOutcome, rename, List.map_append,
          List.map_cons, List.map_nil, Obligation.rename]
    | _ => exact hasked
  · rfl

theorem discharge_rename (obligation : Obligation) :
    (s.rename r).discharge (obligation.rename r) =
      renamed r (rename r) (s.discharge obligation) := by
  refine bind_eq_renamed
    (requireTrait_rename r s obligation.ty obligation.traitName obligation.origin)
    fun (outcome, t) => ?_
  cases outcome with
  | ok => rfl
  | error error => exact congrArg Except.ok (reportError_rename r t error obligation.origin)

theorem dischargeTraits_rename :
    (s.rename r).dischargeTraits = renamed r (rename r) s.dischargeTraits :=
  foldlM_rename r (discharge_rename r) s.obligations { s with obligations := [] }

theorem logicalType_rename (lhs rhs : Ty) (origin : NodeId) :
    (s.rename r).logicalType (lhs.rename r) (rhs.rename r) origin =
      renamed r (Prod.map (Option.map (Ty.rename r)) (rename r))
        (s.logicalType lhs rhs origin) := by
  refine bind_eq_renamed (expect_rename r s .bool lhs origin) fun (left, t) => ?_
  refine bind_eq_renamed (expect_rename r t .bool rhs origin) fun (right, u) => ?_
  simp only [Prod.map, Ty.isError_rename, renamed]
  split
  · rfl
  · rfl

theorem traitType_rename (operator : Operator) (traitName : String) (lhs rhs : Ty)
    (origin : NodeId) :
    (s.rename r).traitType operator traitName (lhs.rename r) (rhs.rename r) origin =
      renamed r (Prod.map (Option.map (Ty.rename r)) (rename r))
        (s.traitType operator traitName lhs rhs origin) := by
  have hreport (t : Session) (error : TypeError) :
      Except.ok (none, (t.rename r).reportError (error.rename r) origin) =
        renamed r (Prod.map (Option.map (Ty.rename r)) (rename r))
          (.ok (none, t.reportError error origin)) :=
    congrArg (fun u => Except.ok (none, u)) (reportError_rename r t error origin)
  refine bind_eq_renamed (unify_rename r s lhs rhs) fun (agreed, t) => ?_
  cases agreed with
  | error error => exact hreport t error
  | ok =>
      refine bind_eq_renamed (requireTrait_rename r t lhs traitName origin) fun (satisfied, u) => ?_
      cases satisfied with
      | error error => exact hreport u error
      | ok =>
          show (if _ then _ else _) = renamed r _ (if _ then _ else _)
          split
          · rfl
          · refine bind_eq_renamed (apply_rename r u lhs) fun applied => ?_
            rw [Ty.erase_rename]
            rfl

theorem operatorType_rename (operator : Operator) (lhs rhs : Ty) (origin : NodeId) :
    (s.rename r).operatorType operator (lhs.rename r) (rhs.rename r) origin =
      renamed r (Prod.map (Option.map (Ty.rename r)) (rename r))
        (s.operatorType operator lhs rhs origin) := by
  rw [operatorType, operatorType]
  cases operator.trait? with
  | none => exact logicalType_rename r s lhs rhs origin
  | some traitName => exact traitType_rename r s operator traitName lhs rhs origin

theorem binary_rename (operator : Operator) (lhs rhs : Inferred) (origin : NodeId) :
    (s.rename r).binary operator (lhs.rename r) (rhs.rename r) origin =
      renamed r (Prod.map (Inferred.rename r) (rename r)) (s.binary operator lhs rhs origin) := by
  refine bind_eq_renamed (operatorType_rename r s operator lhs.ty rhs.ty origin) fun (ty, t) => ?_
  cases ty with
  | none => rfl
  | some ty =>
      simp only [Prod.map, Option.map_some, Inferred.rename]
      split
      · exact congrArg (fun answer => Except.ok (answer, t.rename r))
          (Inferred.rename_ofLiteral r _).symm
      · rfl

theorem lookupOrUnknown_rename (table : SymbolTable) (name : String) (origin : NodeId)
    (span : Option Span) :
    (s.rename r).lookupOrUnknown (table.rename r) name origin span =
      Prod.map (Symbol.rename r) (rename r) (s.lookupOrUnknown table name origin span) := by
  rw [lookupOrUnknown, lookupOrUnknown, SymbolTable.lookup_rename]
  cases table.lookup name with
  | some symbol => rfl
  | none =>
      exact congrArg (Prod.mk Symbol.unknown)
        (report_rename r s { Report.ofError (.unknownIdentifier name) origin with span })

theorem poison_rename (ty : Ty) :
    (s.rename r).poison (ty.rename r) = renamed r (rename r) (s.poison ty) := by
  refine bind_eq_renamed (apply_rename r s ty) fun applied => ?_
  rw [Ty.freeVars_rename]
  have hbind : (applied.freeVars.map r).foldlM (fun subst v => subst.bind v .error)
      (s.subst.rename r) = renamed r (Subst.rename r)
        (applied.freeVars.foldlM (fun subst v => subst.bind v .error) s.subst) :=
    foldlM_rename r (fun subst v => Subst.bind_rename r subst v .error) applied.freeVars s.subst
  exact bind_eq_renamed hbind fun _ => rfl

theorem resolveSymbol_rename (symbol : Symbol) :
    (s.rename r).resolveSymbol (symbol.rename r) =
      renamed r (renameOutcome r (Ty.rename r)) (s.resolveSymbol symbol) := by
  refine bind_eq_renamed (apply_rename r s symbol.ty) fun ty => ?_
  rw [Ty.isClosed_rename]
  split
  · rfl
  · rfl

theorem settleSymbol_rename (failed : List DeclId) (decl : DeclId) (symbol : Symbol) :
    (s.rename r).settleSymbol failed decl (symbol.rename r) =
      renamed r (Prod.map (ResolvedSymbol.rename r) (rename r))
        (s.settleSymbol failed decl symbol) := by
  have herror : (symbol.rename r).resolved decl .error = (symbol.resolved decl .error).rename r :=
    Symbol.resolved_rename r symbol decl .error
  rw [settleSymbol, settleSymbol]
  split
  · rw [herror]
    rfl
  · refine bind_eq_renamed (resolveSymbol_rename r s symbol) fun outcome => ?_
    cases outcome with
    | ok ty =>
        have hresolved := Symbol.resolved_rename r symbol decl ty.erase
        rw [← Ty.erase_rename] at hresolved
        exact congrArg (fun resolved => Except.ok (resolved, s.rename r)) hresolved
    | error error =>
        have hreport := report_rename r s ⟨error, .decl decl, some symbol.span, []⟩
        have hpoison := poison_rename r (s.report ⟨error, .decl decl, some symbol.span, []⟩)
          symbol.ty
        rw [← hreport] at hpoison
        refine bind_eq_renamed hpoison fun t => ?_
        rw [herror]
        rfl

theorem settleSymbols_rename (failed : List DeclId) (entries : List (DeclId × Symbol)) :
    (s.rename r).settleSymbols failed (entries.map (Prod.map id (Symbol.rename r))) =
      renamed r (Prod.map (List.map (ResolvedSymbol.rename r)) (rename r))
        (s.settleSymbols failed entries) := by
  induction entries generalizing s with
  | nil => rfl
  | cons entry rest ih =>
      refine bind_eq_renamed (settleSymbol_rename r s failed entry.1 entry.2) fun (first, t) => ?_
      exact bind_eq_renamed (ih t) fun _ => rfl

theorem reportOpen_rename (subject : String) (ty : Ty) (origin : NodeId) :
    (s.rename r).reportOpen subject (ty.rename r) origin =
      renamed r (rename r) (s.reportOpen subject ty origin) := by
  have hreport := reportError_rename r s (.unresolved subject ty) origin
  rw [reportOpen, reportOpen, ← poison_rename, ← hreport]
  rfl

theorem settleObligation_rename (obligation : Obligation) :
    (s.rename r).settleObligation (obligation.rename r) =
      renamed r (rename r) (s.settleObligation obligation) := by
  refine bind_eq_renamed (apply_rename r s obligation.ty) fun ty => ?_
  rw [Ty.isClosed_rename]
  split
  · rfl
  · exact reportOpen_rename r s _ ty obligation.origin

theorem settleExprs_rename (entries : List (ExprId × Inferred)) :
    (s.rename r).settleExprs (entries.map (Prod.map id (Inferred.rename r))) =
      renamed r (Prod.map (List.map (Prod.map id (Inferred.rename r))) (rename r))
        (s.settleExprs entries) := by
  induction entries generalizing s with
  | nil => rfl
  | cons entry rest ih =>
      refine bind_eq_renamed (apply_rename r s entry.2.ty) fun ty => ?_
      rw [Ty.isClosed_rename]
      split
      · exact bind_eq_renamed (ih s) fun _ => rfl
      · exact bind_eq_renamed (reportOpen_rename r s _ ty _) ih

theorem settle_rename :
    (s.rename r).settle =
      renamed r (Prod.map (List.map (Prod.map id (Inferred.rename r))) (rename r)) s.settle := by
  refine bind_eq_renamed (dischargeTraits_rename r s) fun t => ?_
  refine bind_eq_renamed (foldlM_rename r (settleObligation_rename r) t.obligations
    { t with obligations := [] }) fun u => ?_
  exact settleExprs_rename r u u.exprs.entries

end Session

end TypeInference

/-
# Tracing only listens

No operation reads the trace of its session.  A unification adds events to the trace,
which takes them up as far as its limit allows, and everything else leaves the trace
alone.  So what an operation does with one trace it does with every other: there is one
computation behind all of them, which comes to a result and to a list of events, and
with a given trace the result is the same and the events are recorded.

A trace is seen through its limit.  Of all events since it was last emptied it holds
the first, and after more events it still does.  Two sessions that were started with
different limits, or one of them without a trace, therefore differ in nothing else after
the same calls, and both show parts of the same list of lines.
-/

import TypeInference.Proofs.Session.Justification
import TypeInference.Proofs.Session.Tracing

namespace TypeInference

namespace Trace

/-- The trace of a given limit after all these events. -/
def ofAll (limit : Nat) (events : List Event) : Trace := (empty limit).record events

theorem map_event_steps_ofAll (limit : Nat) (events : List Event) :
    (ofAll limit events).steps.map TraceStep.event = events.take limit := by
  rw [ofAll, record_eq]
  exact map_event_numberedAfter 0 (events.take limit)

theorem lines_ofAll (limit : Nat) (events : List Event) :
    (ofAll limit events).lines = linesAfter 0 (events.take limit) := by
  rw [ofAll, lines_record]
  exact take_linesAfter 0 limit events

theorem clear_ofAll (limit : Nat) (events : List Event) :
    (ofAll limit events).clear = empty limit := by
  rw [ofAll, record_eq]
  rfl

end Trace

/-- Lines are numbered without gaps. -/
theorem map_step_linesAfter (count : Nat) (events : List Event) :
    (linesAfter count events).map TraceLine.step = List.range' (count + 1) events.length := by
  induction events generalizing count with
  | nil => rfl
  | cons event rest ih =>
      rw [linesAfter_cons, List.map_cons, ih, List.length_cons, List.range'_succ]

/-- The trace of a session after all these events, if it was started with one. -/
def traceOfAll (on : Bool) (limit : Nat) (events : List Event) : Option Trace :=
  if on then some (.ofAll limit events) else none

theorem record_traceOfAll (on : Bool) (limit : Nat) (events batch : List Event) :
    (traceOfAll on limit events).map (·.record batch) = traceOfAll on limit (events ++ batch) := by
  cases on with
  | false => rfl
  | true => exact congrArg some (Trace.record_record (.empty limit) events batch)

theorem clear_traceOfAll (on : Bool) (limit : Nat) (events : List Event) :
    (traceOfAll on limit events).map Trace.clear = traceOfAll on limit [] := by
  cases on with
  | false => rfl
  | true => exact congrArg some (Trace.clear_ofAll limit events)

section Observed

variable {α τ σ : Type} {put : Option Trace → τ → τ} {put' : Option Trace → σ → σ}

/-- A computation that does not read the trace it is given, and adds events to it: with
every trace it comes to the same result, and the same events are recorded. -/
def Observed (put : Option Trace → τ → τ) (compute : Option Trace → Except Fault τ) : Prop :=
  ∃ result : Except Fault (τ × List Event), ∀ trace,
    compute trace = result.map fun r => put (trace.map (·.record r.2)) r.1

namespace Observed

theorem fault (fault : Fault) : Observed put fun _ => .error fault :=
  ⟨.error fault, fun _ => rfl⟩

/-- A result without events. -/
theorem pure (result : τ) : Observed put fun trace => .ok (put trace result) := by
  refine ⟨.ok (result, []), fun trace => ?_⟩
  have hnothing : (fun trace : Trace => trace.record []) = id := rfl
  rw [Except.map, hnothing, Option.map_id, id]

/-- The events of the second part come after those of the first. -/
theorem bind {first : Option Trace → Except Fault τ} {next : τ → Except Fault σ}
    (h : Observed put first) (hnext : ∀ a, Observed put' fun trace => next (put trace a)) :
    Observed put' fun trace => first trace >>= next := by
  obtain ⟨result, hresult⟩ := h
  cases result with
  | error fault => exact ⟨.error fault, fun trace => congrArg (· >>= next) (hresult trace)⟩
  | ok r =>
      obtain ⟨a, events⟩ := r
      obtain ⟨last, hlast⟩ := hnext a
      refine ⟨last.map (Prod.map id (events ++ ·)), fun trace => ?_⟩
      have hrecord (batch : List Event) : (trace.map (·.record events)).map (·.record batch) =
          trace.map (·.record (events ++ batch)) := by
        rw [Option.map_map]
        exact congrArg (trace.map ·) (funext fun t => Trace.record_record t events batch)
      have hboth : (first trace >>= next) = next (put (trace.map (·.record events)) a) :=
        congrArg (· >>= next) (hresult trace)
      refine (hboth.trans (hlast _)).trans ?_
      cases last with
      | error fault => rfl
      | ok r => exact congrArg (fun trace => Except.ok (put' trace r.1)) (hrecord r.2)

/-- A first part that knows nothing of the trace. -/
theorem read {x : Except Fault α} {next : Option Trace → α → Except Fault σ}
    (hnext : ∀ a, Observed put' fun trace => next trace a) :
    Observed put' fun trace => x >>= next trace := by
  cases x with
  | error fault => exact .fault fault
  | ok a => exact hnext a

/-- A result that is put into another. -/
theorem map {first : Option Trace → Except Fault τ} {wrap : τ → σ} (h : Observed put first)
    (hwrap : ∀ trace a, wrap (put trace a) = put' trace (wrap a)) :
    Observed put' fun trace => first trace >>= fun a => .ok (wrap a) := by
  refine h.bind fun a => ?_
  simp only [hwrap]
  exact .pure (wrap a)

/-- What does not see the trace of the result is the same for every trace. -/
theorem bind_eq {first : Option Trace → Except Fault τ} {next : τ → Except Fault α}
    (h : Observed put first) (hnext : ∀ trace a, next (put trace a) = next a)
    (trace trace' : Option Trace) : (first trace >>= next) = first trace' >>= next := by
  obtain ⟨result, hresult⟩ := h
  rw [hresult, hresult]
  cases result with
  | error fault => rfl
  | ok r => exact (hnext _ r.1).trans (hnext _ r.1).symm

end Observed

end Observed

namespace Session

/-- A session with another trace. -/
def retrace (trace : Option Trace) (s : Session) : Session := { s with trace }

/-- The events of a unification.  A failed one tells at the end what was taken back. -/
def unifyEvents (s : Session) (a b : Ty) : List Event :=
  match Unify.run s.subst a b with
  | .broken _ => []
  | .solved progress => progress.log.reverse
  | .failed _ progress =>
      let undone := progress.subst.size - (progress.subst.rollback s.subst.snapshot).size
      progress.log.reverse ++ [.rolledBack a b undone]

section Operations

variable (s : Session) {origin : NodeId}

theorem unify_retrace (trace : Option Trace) (a b : Ty) :
    (s.retrace trace).unify a b = (s.unify a b).map
      (Prod.map id (retrace (trace.map (·.record (s.unifyEvents a b))))) := by
  rw [unify, unify, unifyEvents]
  have hsubst : (s.retrace trace).subst = s.subst := rfl
  rw [hsubst]
  cases Unify.run s.subst a b <;> rfl

theorem observed_unify (a b : Ty) :
    Observed (fun trace => Prod.map id (retrace trace)) fun trace =>
      (s.retrace trace).unify a b := by
  refine ⟨(s.unify a b).map (·, s.unifyEvents a b), fun trace => ?_⟩
  refine (unify_retrace s trace a b).trans ?_
  cases s.unify a b <;> rfl

theorem observed_expect (expected actual : Ty) :
    Observed (fun trace => Prod.map id (retrace trace)) fun trace =>
      (s.retrace trace).expect expected actual origin := by
  refine .bind (observed_unify s expected actual) ?_
  rintro ⟨outcome, t⟩
  cases outcome with
  | ok => exact .read (x := t.apply expected) fun ty => .pure (ty, t)
  | error error => exact .pure (Ty.error, t.reportError error origin)

theorem observed_requireTrait (ty : Ty) (traitName : String) :
    Observed (fun trace => Prod.map id (retrace trace)) fun trace =>
      (s.retrace trace).requireTrait ty traitName origin := by
  have hregistry (trace : Option Trace) : (s.retrace trace).registry = s.registry := rfl
  simp only [requireTrait, hregistry]
  split
  · refine .read (x := s.traitSubject ty) fun subject => ?_
    split
    · exact .pure (Except.ok (), s)
    · exact .pure (Except.ok (), s)
    · rename_i v
      exact .pure (Except.ok (),
        { s with obligations := s.obligations ++ [(⟨.var v, traitName, origin⟩ : Obligation)] })
    · refine .read (x := s.registry.satisfies _ traitName) fun answer => ?_
      split
      · exact .pure (Except.ok (), s)
      · exact .read (x := s.apply _) fun applied =>
          .pure (Except.error (TypeError.unsatisfied applied traitName), s)
  · exact .fault _

theorem observed_logicalType (lhs rhs : Ty) :
    Observed (fun trace => Prod.map id (retrace trace)) fun trace =>
      (s.retrace trace).logicalType lhs rhs origin := by
  refine .bind (observed_expect s .bool lhs) ?_
  rintro ⟨left, t⟩
  refine .bind (observed_expect t .bool rhs) ?_
  rintro ⟨right, u⟩
  exact .pure (if left.isError || right.isError then none else some Ty.bool, u)

theorem observed_traitType (operator : Operator) (traitName : String) (lhs rhs : Ty) :
    Observed (fun trace => Prod.map id (retrace trace)) fun trace =>
      (s.retrace trace).traitType operator traitName lhs rhs origin := by
  refine .bind (observed_unify s lhs rhs) ?_
  rintro ⟨agreed, t⟩
  cases agreed with
  | error error => exact .pure (none, t.reportError error origin)
  | ok =>
      refine .bind (observed_requireTrait t lhs traitName) ?_
      rintro ⟨satisfied, u⟩
      cases satisfied with
      | error error => exact .pure (none, u.reportError error origin)
      | ok =>
          dsimp only [Prod.map, id]
          split
          · exact .pure (some Ty.bool, u)
          · exact .read (x := u.apply lhs) fun applied => .pure (some applied.erase, u)

theorem observed_binary (operator : Operator) (lhs rhs : Inferred) :
    Observed (fun trace => Prod.map id (retrace trace)) fun trace =>
      (s.retrace trace).binary operator lhs rhs origin := by
  have htype : Observed (fun trace => Prod.map id (retrace trace)) fun trace =>
      (s.retrace trace).operatorType operator lhs.ty rhs.ty origin := by
    simp only [operatorType]
    split
    · exact observed_logicalType s lhs.ty rhs.ty
    · exact observed_traitType s operator _ lhs.ty rhs.ty
  refine .bind htype ?_
  rintro ⟨ty, t⟩
  cases ty with
  | none => exact .pure (Inferred.error, t)
  | some ty =>
      dsimp only [Prod.map, id]
      split
      · exact .pure (_, t)
      · exact .pure (_, t)

theorem observed_freshVar (pool : VarPool) :
    Observed (fun trace => Prod.map id (Prod.map (retrace trace) id)) fun trace =>
      (s.retrace trace).freshVar pool :=
  .read (x := s.supply.draw pool) fun r => .pure (r.1, { s with supply := r.2.1 }, r.2.2)

theorem observed_freshVars (pool : VarPool) (count : Nat) :
    Observed (fun trace => Prod.map id (Prod.map (retrace trace) id)) fun trace =>
      (s.retrace trace).freshVars pool count :=
  .read (x := s.supply.drawMany pool count) fun r => .pure (r.1, { s with supply := r.2.1 }, r.2.2)

theorem observed_resolveAscription (pool : VarPool) (written : Ascription) :
    Observed (fun trace => Prod.map id (Prod.map (retrace trace) id)) fun trace =>
      (s.retrace trace).resolveAscription pool written :=
  .read (x := written.toTy s.supply pool) fun r => .pure (r.1, { s with supply := r.2.1 }, r.2.2)

theorem observed_call (pool : VarPool) (callee : Ty) (args : List Ty) :
    Observed (fun trace => Prod.map id (Prod.map (retrace trace) id)) fun trace =>
      (s.retrace trace).call pool callee args origin := by
  refine .bind (observed_freshVar s pool) ?_
  rintro ⟨v, t, pool⟩
  refine .bind (observed_unify t callee (.func (Ty.eraseAll args) (.var v))) ?_
  rintro ⟨outcome, u⟩
  cases outcome with
  | ok => exact .read (x := u.apply (.var v)) fun ty => .pure (ty, u, pool)
  | error error => exact .pure (Ty.error, u.reportError error origin, pool)

theorem observed_reconcile (pool : VarPool) (decl : DeclId) (symbol : Symbol) :
    Observed (fun trace => Prod.map id (Prod.map (retrace trace) id)) fun trace =>
      (s.retrace trace).reconcile pool decl symbol := by
  unfold reconcile
  split
  · exact .pure (true, s, pool)
  · rename_i written _
    refine .bind (observed_resolveAscription s pool written.value) ?_
    rintro ⟨annotated, t, pool⟩
    cases annotated with
    | error error => exact .pure (false, t.report _, pool)
    | ok annotated =>
        refine .bind (observed_unify t annotated symbol.ty) ?_
        rintro ⟨outcome, u⟩
        cases outcome with
        | ok => exact .pure (true, u, pool)
        | error error => exact .pure (false, u.report _, pool)

theorem observed_reconcileAll (pool : VarPool) (entries : List (DeclId × Symbol)) :
    Observed (fun trace => Prod.map id (Prod.map (retrace trace) id)) fun trace =>
      (s.retrace trace).reconcileAll pool entries := by
  induction entries generalizing s pool with
  | nil => exact .pure ([], s, pool)
  | cons entry rest ih =>
      obtain ⟨decl, symbol⟩ := entry
      refine .bind (observed_reconcile s pool decl symbol) ?_
      rintro ⟨agreed, t, pool⟩
      refine .bind (ih t pool) ?_
      rintro ⟨failed, u, pool⟩
      exact .pure (if agreed then failed else decl :: failed, u, pool)

theorem observed_poison (ty : Ty) :
    Observed retrace fun trace => (s.retrace trace).poison ty :=
  .read (x := s.apply ty) fun applied =>
    .read (x := applied.freeVars.foldlM (fun subst v => subst.bind v .error) s.subst)
      fun subst => .pure { s with subst }

theorem observed_settleSymbol (failed : List DeclId) (decl : DeclId) (symbol : Symbol) :
    Observed (fun trace => Prod.map id (retrace trace)) fun trace =>
      (s.retrace trace).settleSymbol failed decl symbol := by
  simp only [settleSymbol]
  split
  · exact .pure (symbol.resolved decl .error, s)
  · refine .read (x := s.resolveSymbol symbol) fun answer => ?_
    cases answer with
    | ok ty => exact .pure (symbol.resolved decl ty.erase, s)
    | error error =>
        exact .bind (observed_poison (s.report _) symbol.ty) fun t =>
          .pure (symbol.resolved decl .error, t)

theorem observed_settleSymbols (failed : List DeclId) (entries : List (DeclId × Symbol)) :
    Observed (fun trace => Prod.map id (retrace trace)) fun trace =>
      (s.retrace trace).settleSymbols failed entries := by
  induction entries generalizing s with
  | nil => exact .pure ([], s)
  | cons entry rest ih =>
      obtain ⟨decl, symbol⟩ := entry
      refine .bind (observed_settleSymbol s failed decl symbol) ?_
      rintro ⟨first, t⟩
      refine .bind (ih t) ?_
      rintro ⟨others, u⟩
      exact .pure (first :: others, u)

/-- A loop only listens if each of its rounds does. -/
theorem observed_foldlM {α : Type} {step : Session → α → Except Fault Session}
    (hstep : ∀ s a, Observed retrace fun trace => step (retrace trace s) a) (list : List α) :
    Observed retrace fun trace => list.foldlM step (s.retrace trace) := by
  induction list generalizing s with
  | nil => exact .pure s
  | cons first rest ih =>
      exact .bind (hstep s first) ih

theorem observed_discharge (obligation : Obligation) :
    Observed retrace fun trace => (s.retrace trace).discharge obligation := by
  refine .bind (observed_requireTrait s obligation.ty obligation.traitName) ?_
  rintro ⟨outcome, t⟩
  cases outcome with
  | ok => exact .pure t
  | error error => exact .pure (t.reportError error obligation.origin)

theorem observed_dischargeTraits :
    Observed retrace fun trace => (s.retrace trace).dischargeTraits :=
  observed_foldlM { s with obligations := [] } observed_discharge s.obligations

theorem observed_settleScope (pool : VarPool) (scope : Scope) :
    Observed (fun trace => Prod.map id (Prod.map (retrace trace) id)) fun trace =>
      (s.retrace trace).settleScope pool scope := by
  refine .bind (observed_reconcileAll s pool scope.symbols.entries) ?_
  rintro ⟨failed, t, pool⟩
  refine .bind (observed_dischargeTraits t) fun u => ?_
  refine .bind (observed_settleSymbols u failed scope.symbols.entries) ?_
  rintro ⟨symbols, w⟩
  exact .pure (symbols, { w with resolved := w.resolved ++ symbols }, pool)

theorem observed_closeScope (pool : VarPool) (table : SymbolTable) :
    Observed (fun trace => Prod.map id (Prod.map id (Prod.map (retrace trace) id))) fun trace =>
      (s.retrace trace).closeScope pool table := by
  simp only [closeScope]
  split
  · exact .fault _
  · rename_i scope outer _
    exact .bind (observed_settleScope s pool scope) fun r => .pure (r.1, outer, r.2.1, r.2.2)

theorem observed_reportOpen (subject : String) (ty : Ty) :
    Observed retrace fun trace => (s.retrace trace).reportOpen subject ty origin :=
  observed_poison (s.reportError (.unresolved subject ty) origin) ty

theorem observed_settleObligation (obligation : Obligation) :
    Observed retrace fun trace => (s.retrace trace).settleObligation obligation := by
  refine .read (x := s.apply obligation.ty) fun ty => ?_
  split
  · exact .pure s
  · exact observed_reportOpen s _ ty

theorem observed_settleExprs (entries : List (ExprId × Inferred)) :
    Observed (fun trace => Prod.map id (retrace trace)) fun trace =>
      (s.retrace trace).settleExprs entries := by
  induction entries generalizing s with
  | nil => exact .pure ([], s)
  | cons entry rest ih =>
      obtain ⟨expr, inferred⟩ := entry
      refine .read (x := s.apply inferred.ty) fun ty => ?_
      split
      · refine .bind (ih s) ?_
        rintro ⟨others, t⟩
        exact .pure ((expr, { inferred with ty }) :: others, t)
      · exact .bind (observed_reportOpen s _ ty) fun t => ih t

theorem observed_settle :
    Observed (fun trace => Prod.map id (retrace trace)) fun trace => (s.retrace trace).settle := by
  refine .bind (observed_dischargeTraits s) fun t => ?_
  refine .bind (observed_foldlM { t with obligations := [] } observed_settleObligation
    t.obligations) fun u => ?_
  exact observed_settleExprs u u.exprs.entries

end Operations

end Session

namespace Workspace

/-- A workspace with another trace. -/
def retrace (trace : Option Trace) (w : Workspace) : Workspace :=
  { w with session := w.session.retrace trace }

/-- The one command that reads the trace is the one that empties it. -/
theorem observed_exec (w : Workspace) {command : Command} (h : command ≠ .takeTrace) :
    Observed (fun trace => Prod.map id (retrace trace)) fun trace =>
      (w.retrace trace).exec command := by
  cases command <;> dsimp only [exec, retrace]
  case freshVars count =>
    exact (Session.observed_freshVars w.session w.pool count).map fun _ _ => rfl
  case freshType =>
    exact (Session.observed_freshVar w.session w.pool).map fun _ _ => rfl
  case unify expected actual =>
    exact (Session.observed_unify w.session expected actual).map fun _ _ => rfl
  case expect expected actual origin =>
    exact (Session.observed_expect w.session expected actual).map fun _ _ => rfl
  case requireTrait ty traitName origin =>
    exact (Session.observed_requireTrait w.session ty traitName).map fun _ _ => rfl
  case dischargeTraits =>
    exact (Session.observed_dischargeTraits w.session).map fun _ _ => rfl
  case binary operator lhs rhs origin =>
    exact (Session.observed_binary w.session operator lhs rhs).map fun _ _ => rfl
  case call callee args origin =>
    exact (Session.observed_call w.session w.pool callee args).map fun _ _ => rfl
  case resolveAscription written =>
    exact (Session.observed_resolveAscription w.session w.pool written).map fun _ _ => rfl
  case recordExpr expr inferred =>
    exact .pure (Reply.done, { w with session := w.session.recordExpr expr inferred })
  case report report => exact .pure (Reply.done, { w with session := w.session.report report })
  case takeTrace => exact absurd rfl h
  case declare name span ascription =>
    exact .pure (Reply.declared (w.declarations.declare name span ascription).1,
      { w with declarations := (w.declarations.declare name span ascription).2 })
  case publish symbol =>
    exact .read (x := w.table.declare symbol) fun table =>
      .pure (Reply.symbol symbol, { w with table })
  case lookupOrUnknown name origin span =>
    unfold Session.lookupOrUnknown
    split
    · exact .pure (Reply.symbol _, w)
    · exact .pure (Reply.symbol _, { w with session := w.session.report _ })
  case pushScope => exact .pure (Reply.pushed, { w with table := w.table.push })
  case popScope =>
    split
    · exact .pure (Reply.popped none, w)
    · rename_i scope table _
      exact .pure (Reply.popped (some scope), { w with table })
  case closeScope =>
    exact (Session.observed_closeScope w.session w.pool w.table).map fun _ _ => rfl

end Workspace

/-- An answer without the lines of a trace. -/
def Reply.untraced : Reply → Reply
  | .lines _ => .lines []
  | reply => reply

namespace Session

/-- A call that does not take the trace comes to one result and the same events with every
trace; if it is a unification, they are the events of this unification. -/
theorem exists_exec_retrace (s : Session) {call : Call} (h : call.command ≠ .takeTrace) :
    ∃ result : Except Fault ((Reply × Session) × List Event),
      (∀ trace, (s.retrace trace).exec call = result.map fun r =>
        Prod.map id (retrace (trace.map (·.record r.2))) r.1) ∧
      ∀ a b, call.command = .unify a b → ∀ r, result = .ok r → r.2 = s.unifyEvents a b := by
  by_cases hunify : ∃ a b, call.command = .unify a b
  · obtain ⟨a, b, hcommand⟩ := hunify
    refine ⟨(s.unify a b).map fun r => ((.outcome r.1, r.2), s.unifyEvents a b), ?_, ?_⟩
    · intro trace
      rw [exec, hcommand]
      show ((s.retrace trace).unify a b >>= _) >>= _ = _
      rw [unify_retrace]
      cases s.unify a b <;> rfl
    · intro a' b' hcommand' r hr
      cases hcommand.symm.trans hcommand'
      obtain ⟨q, _, rfl⟩ := exists_of_map_eq_ok hr
      rfl
  · have hexec := Workspace.observed_exec ⟨s, call.declarations, call.table, call.pool⟩ h
    obtain ⟨result, hresult⟩ : Observed (fun trace => Prod.map id (retrace trace)) fun trace =>
      (s.retrace trace).exec call := hexec.map fun _ _ => rfl
    exact ⟨result, hresult, fun a b hcommand => absurd ⟨a, b, hcommand⟩ hunify⟩

theorem exec_takeTrace (s : Session) {call : Call} (h : call.command = .takeTrace) :
    s.exec call = .ok (.lines s.traceLines, s.clearTrace) := by
  rw [exec, h]
  rfl

/-- What a call makes of the events before it.  Taking the trace leaves none of them.  All
other calls keep them and add their own after them, a unification all of its events. -/
structure Keeps (s : Session) (call : Call) (before after : List Event) : Prop where
  taken : call.command = .takeTrace → after = []
  grown : call.command ≠ .takeTrace → before <+: after
  unified : ∀ a b, call.command = .unify a b → after = before ++ s.unifyEvents a b

/-- A call carried out with every limit after the same events is one call, with the same
events after it. -/
theorem exec_traceOfAll (s : Session) (events : List Event) (call : Call) :
    ∃ result : Except Fault (Reply × Session × List Event),
      (∀ on limit, ((s.retrace (traceOfAll on limit events)).exec call).map
          (Prod.map Reply.untraced id) =
        result.map (Prod.map id fun r => r.1.retrace (traceOfAll on limit r.2))) ∧
      ∀ r, result = .ok r → Keeps s call events r.2.2 := by
  by_cases htake : call.command = .takeTrace
  · refine ⟨.ok (.lines [], s, []), fun on limit => ?_, ?_⟩
    · rw [exec_takeTrace _ htake]
      exact congrArg (fun trace => Except.ok (Reply.lines [], s.retrace trace))
        (clear_traceOfAll on limit events)
    · rintro r ⟨⟩
      refine ⟨fun _ => rfl, fun h => absurd htake h, fun a b hunify => ?_⟩
      cases htake.symm.trans hunify
  · obtain ⟨result, hresult, hunified⟩ := exists_exec_retrace s htake
    refine ⟨result.map fun r => (r.1.1.untraced, r.1.2, events ++ r.2), fun on limit => ?_, ?_⟩
    · rw [hresult]
      cases result with
      | error fault => rfl
      | ok r =>
          exact congrArg (fun trace => Except.ok (r.1.1.untraced, r.1.2.retrace trace))
            (record_traceOfAll on limit events r.2)
    · intro r hr
      obtain ⟨q, rfl, rfl⟩ := exists_of_map_eq_ok hr
      refine ⟨fun h => absurd h htake, fun _ => List.prefix_append events q.2, fun a b h => ?_⟩
      exact congrArg (events ++ ·) (hunified a b h q rfl)

/-! ## Runs -/

/-- Carry out calls in a new session. -/
def conduct (registry : Registry) (options : SessionOptions) (pool : VarPool)
    (calls : List Call) : Except Fault (List Reply × Session) := do
  let (s, _) ← Session.new registry options pool
  s.perform calls

/-- The last call comes after the others. -/
theorem perform_concat (s : Session) (calls : List Call) (call : Call) :
    s.perform (calls ++ [call]) =
      s.perform calls >>= fun r => (r.2.exec call).map (Prod.map (r.1 ++ [·]) id) := by
  induction calls generalizing s with
  | nil =>
      show (s.exec call >>= _) = (s.exec call).map _
      cases s.exec call <;> rfl
  | cons first rest ih =>
      show (s.exec first >>= _) = ((s.exec first >>= _) >>= _)
      cases s.exec first with
      | error fault => rfl
      | ok r =>
          show (r.2.perform (rest ++ [call]) >>= _) = ((r.2.perform rest >>= _) >>= _)
          rw [ih]
          cases r.2.perform rest with
          | error fault => rfl
          | ok q =>
              show ((q.2.exec call).map _ >>= _) = (q.2.exec call).map _
              cases q.2.exec call <;> rfl

variable {registry : Registry} {offset : Option Nat} {pool : VarPool} {calls : List Call}

theorem conduct_concat {options : SessionOptions} (call : Call) :
    conduct registry options pool (calls ++ [call]) =
      conduct registry options pool calls >>=
        fun r => (r.2.exec call).map (Prod.map (r.1 ++ [·]) id) := by
  simp only [conduct, perform_concat, bind_assoc]

/-- The run behind runs with every limit: they end in its session, with the trace that
they have of its events, and their replies are its replies but for lines of the trace. -/
def Underlies (registry : Registry) (offset : Option Nat) (pool : VarPool) (calls : List Call)
    (result : Except Fault (List Reply × Session × List Event)) : Prop :=
  ∀ on limit, (conduct registry ⟨on, limit, offset⟩ pool calls).map
      (Prod.map (List.map Reply.untraced) id) =
    result.map (Prod.map id fun r => r.1.retrace (traceOfAll on limit r.2))

/-- The events of a run; none if it faults. -/
def collected : Except Fault (List Reply × Session × List Event) → List Event
  | .error _ => []
  | .ok r => r.2.2

namespace Underlies

variable {replies : List Reply} {u : Session} {events : List Event}

theorem exists_conduct
    (h : Underlies registry offset pool calls (.ok (replies, u, events))) (on : Bool)
    (limit : Nat) :
    ∃ answers, conduct registry ⟨on, limit, offset⟩ pool calls =
      .ok (answers, u.retrace (traceOfAll on limit events)) ∧
        answers.map Reply.untraced = replies := by
  obtain ⟨⟨answers, s⟩, hrun, heq⟩ := exists_of_map_eq_ok (h on limit)
  cases heq
  exact ⟨answers, hrun, rfl⟩

theorem exists_of_conduct {result : Except Fault (List Reply × Session × List Event)}
    (h : Underlies registry offset pool calls result) {on : Bool} {limit : Nat} {s : Session}
    (hrun : conduct registry ⟨on, limit, offset⟩ pool calls = .ok (replies, s)) :
    ∃ answers u events, result = .ok (answers, u, events) ∧
      s = u.retrace (traceOfAll on limit events) := by
  have heq := h on limit
  rw [hrun] at heq
  obtain ⟨⟨answers, u, events⟩, hresult, heq⟩ := exists_of_map_eq_ok heq.symm
  cases heq
  exact ⟨_, u, events, hresult, rfl⟩

/-- Without its trace, a session is the same with every limit. -/
theorem map_untraced {result : Except Fault (List Reply × Session × List Event)}
    (h : Underlies registry offset pool calls result) (on : Bool) (limit : Nat) :
    (conduct registry ⟨on, limit, offset⟩ pool calls).map
        (Prod.map (List.map Reply.untraced) (retrace none)) =
      result.map (Prod.map id fun r => r.1.retrace none) := by
  calc (conduct registry ⟨on, limit, offset⟩ pool calls).map
          (Prod.map (List.map Reply.untraced) (retrace none))
      = ((conduct registry ⟨on, limit, offset⟩ pool calls).map
          (Prod.map (List.map Reply.untraced) id)).map (Prod.map id (retrace none)) := by
        cases conduct registry ⟨on, limit, offset⟩ pool calls <;> rfl
    _ = (result.map (Prod.map id fun r => r.1.retrace (traceOfAll on limit r.2))).map
          (Prod.map id (retrace none)) := by rw [h on limit]
    _ = result.map (Prod.map id fun r => r.1.retrace none) := by cases result <;> rfl

/-- What is seen through every limit determines the events. -/
theorem collected_eq {result result' : Except Fault (List Reply × Session × List Event)}
    (h : Underlies registry offset pool calls result)
    (h' : Underlies registry offset pool calls result') : collected result = collected result' := by
  cases result with
  | error fault =>
      cases result' with
      | error other => rfl
      | ok r => cases (h false 0).symm.trans (h' false 0)
  | ok r =>
      cases result' with
      | error other => cases (h false 0).symm.trans (h' false 0)
      | ok r' =>
          have hlimit := (h true (r.2.2.length + r'.2.2.length)).symm.trans (h' _ _)
          have htrace := Option.some.inj (congrArg (·.2.trace) (Except.ok.inj hlimit))
          have htake := congrArg (fun trace => trace.steps.map TraceStep.event) htrace
          rw [Trace.map_event_steps_ofAll, Trace.map_event_steps_ofAll] at htake
          rwa [List.take_of_length_le (Nat.le_add_right _ _),
            List.take_of_length_le (Nat.le_add_left _ _)] at htake

/-- One more call, whose result with every limit is known. -/
theorem concat {call : Call} {result : Except Fault (Reply × Session × List Event)}
    (h : Underlies registry offset pool calls (.ok (replies, u, events)))
    (hexec : ∀ on limit, ((u.retrace (traceOfAll on limit events)).exec call).map
        (Prod.map Reply.untraced id) =
      result.map (Prod.map id fun r => r.1.retrace (traceOfAll on limit r.2))) :
    Underlies registry offset pool (calls ++ [call])
      (result.map (Prod.map (replies ++ [·]) id)) := by
  intro on limit
  obtain ⟨answers, hrun, rfl⟩ := h.exists_conduct on limit
  have hanswers (reply : Reply × Session) :
      Prod.map (List.map Reply.untraced) id (Prod.map (answers ++ [·]) id reply) =
        Prod.map (answers.map Reply.untraced ++ [·]) id (Prod.map Reply.untraced id reply) :=
    Prod.ext (List.map_append ..) rfl
  calc (conduct registry ⟨on, limit, offset⟩ pool (calls ++ [call])).map
          (Prod.map (List.map Reply.untraced) id)
      = (((u.retrace (traceOfAll on limit events)).exec call).map (Prod.map Reply.untraced id)).map
          (Prod.map (answers.map Reply.untraced ++ [·]) id) := by
        rw [conduct_concat, hrun]
        show Except.map _ (Except.map _ _) = _
        cases (u.retrace (traceOfAll on limit events)).exec call with
        | error fault => rfl
        | ok reply => exact congrArg Except.ok (hanswers reply)
    _ = (result.map (Prod.map id fun r => r.1.retrace (traceOfAll on limit r.2))).map
          (Prod.map (answers.map Reply.untraced ++ [·]) id) := by rw [hexec on limit]
    _ = (result.map (Prod.map (answers.map Reply.untraced ++ [·]) id)).map
          (Prod.map id fun r => r.1.retrace (traceOfAll on limit r.2)) := by cases result <;> rfl

/-- A trace shows the first events, as many as its limit allows. -/
theorem traceLines_eq {result : Except Fault (List Reply × Session × List Event)}
    (h : Underlies registry offset pool calls result) {on : Bool} {limit : Nat} {s : Session}
    (hrun : conduct registry ⟨on, limit, offset⟩ pool calls = .ok (replies, s)) :
    s.traceLines = linesAfter 0 ((collected result).take (if on then limit else 0)) := by
  obtain ⟨_, u, events, rfl, rfl⟩ := h.exists_of_conduct hrun
  cases on with
  | false => rfl
  | true => exact Trace.lines_ofAll limit events

theorem keeps {result result' : Except Fault (List Reply × Session × List Event)}
    (h : Underlies registry offset pool calls result) {call : Call}
    (h' : Underlies registry offset pool (calls ++ [call]) result') {on : Bool} {limit : Nat}
    {s t : Session} {reply : Reply}
    (hrun : conduct registry ⟨on, limit, offset⟩ pool calls = .ok (replies, s))
    (hexec : s.exec call = .ok (reply, t)) :
    Keeps s call (collected result) (collected result') := by
  obtain ⟨_, u, events, rfl, rfl⟩ := h.exists_of_conduct hrun
  obtain ⟨next, hnext, hkeeps⟩ := exec_traceOfAll u events call
  have hlimit := hnext on limit
  rw [hexec] at hlimit
  obtain ⟨r, rfl, _⟩ := exists_of_map_eq_ok hlimit.symm
  rw [h'.collected_eq (h.concat hnext)]
  exact ⟨(hkeeps r rfl).taken, (hkeeps r rfl).grown, (hkeeps r rfl).unified⟩

end Underlies

theorem underlies_nil (registry : Registry) (offset : Option Nat) (pool : VarPool) :
    Underlies registry offset pool []
      ((Session.new registry ⟨false, 0, offset⟩ pool).map fun r => ([], r.1, [])) := by
  intro on limit
  have hnew : Session.new registry ⟨on, limit, offset⟩ pool =
      (Session.new registry ⟨false, 0, offset⟩ pool).map
        (Prod.map (retrace (traceOfAll on limit [])) id) := by
    rw [Session.new, Session.new]
    cases VarSupply.new offset pool <;> rfl
  rw [conduct, hnew]
  cases Session.new registry ⟨false, 0, offset⟩ pool <;> rfl

/-- There is a run behind the runs with every limit. -/
theorem exists_underlies (registry : Registry) (offset : Option Nat) (pool : VarPool)
    (calls : List Call) : ∃ result, Underlies registry offset pool calls result := by
  induction calls using List.reverseRecOn with
  | nil => exact ⟨_, underlies_nil registry offset pool⟩
  | append_singleton calls call ih =>
      obtain ⟨result, h⟩ := ih
      cases result with
      | error fault =>
          refine ⟨.error fault, fun on limit => ?_⟩
          have hrun := h on limit
          rw [conduct_concat]
          cases hcalls : conduct registry ⟨on, limit, offset⟩ pool calls with
          | error other =>
              rw [hcalls] at hrun
              exact hrun
          | ok r =>
              rw [hcalls] at hrun
              cases hrun
      | ok r =>
          obtain ⟨result, hexec, _⟩ := exec_traceOfAll r.2.1 r.2.2 call
          exact ⟨_, h.concat hexec⟩

/-- Two sessions that only the trace tells apart: they hold the same, answer every question
alike, end alike, and make the same of every call. -/
structure Alike (s s' : Session) : Prop where
  held : s.retrace none = s'.retrace none
  apply : ∀ ty, s.apply ty = s'.apply ty
  exprType : ∀ expr, s.exprType? expr = s'.exprType? expr
  resolveSymbol : ∀ symbol, s.resolveSymbol symbol = s'.resolveSymbol symbol
  consistent : ∀ a b, s.consistent a b = s'.consistent a b
  diagnostics : s.diagnostics = s'.diagnostics
  finish : s.finish = s'.finish
  exec : ∀ declarations table pool command,
    (Workspace.exec ⟨s, declarations, table, pool⟩ command).map
        (Prod.map Reply.untraced (Workspace.retrace none)) =
      (Workspace.exec ⟨s', declarations, table, pool⟩ command).map
        (Prod.map Reply.untraced (Workspace.retrace none))

theorem alike_retrace (s : Session) (trace trace' : Option Trace) :
    Alike (s.retrace trace) (s.retrace trace') where
  held := rfl
  apply _ := rfl
  exprType _ := rfl
  resolveSymbol _ := rfl
  consistent _ _ := rfl
  diagnostics := rfl
  finish := (observed_settle s).bind_eq (fun _ _ => rfl) trace trace'
  exec declarations table pool command := by
    by_cases htake : command = .takeTrace
    · rw [htake]
      rfl
    · have hexec := Workspace.observed_exec ⟨s, declarations, table, pool⟩ htake
      obtain ⟨result, hresult⟩ := hexec
      have hsame (trace : Option Trace) :
          (Workspace.exec ⟨s.retrace trace, declarations, table, pool⟩ command).map
              (Prod.map Reply.untraced (Workspace.retrace none)) =
            result.map fun r => Prod.map Reply.untraced (Workspace.retrace none) r.1 := by
        refine (congrArg (Except.map _) (hresult trace)).trans ?_
        cases result <;> rfl
      exact (hsame trace).trans (hsame trace').symm

/-- Tracing is a bounded observer.  After the same calls, sessions that were started with
different limits, or without a trace, have faulted alike or given the same replies but for
lines of the trace, and only the trace tells them apart.  One list of events stands behind
the traces of all of them.  It is empty at the start and after the trace was taken, and
otherwise only grows; a trace shows as many of the first events as its limit allows, in
lines that are numbered from one without gaps, and these lines are what is returned when
the trace is taken. -/
theorem tracing_bounded_observer (registry : Registry) (offset : Option Nat) (pool : VarPool) :
    (∀ calls on on' limit limit',
      (conduct registry ⟨on, limit, offset⟩ pool calls).map
          (Prod.map (List.map Reply.untraced) (retrace none)) =
        (conduct registry ⟨on', limit', offset⟩ pool calls).map
          (Prod.map (List.map Reply.untraced) (retrace none))) ∧
    (∀ calls on on' limit limit' replies replies' s s',
      conduct registry ⟨on, limit, offset⟩ pool calls = .ok (replies, s) →
      conduct registry ⟨on', limit', offset⟩ pool calls = .ok (replies', s') → Alike s s') ∧
    ∃ collected : List Call → List Event, collected [] = [] ∧
      ∀ calls on limit replies s,
        conduct registry ⟨on, limit, offset⟩ pool calls = .ok (replies, s) →
        s.traceLines = linesAfter 0 ((collected calls).take (if on then limit else 0)) ∧
        s.traceLines.map TraceLine.step = List.range' 1 s.traceLines.length ∧
        ∀ call reply t, s.exec call = .ok (reply, t) →
          (call.command = .takeTrace → reply = .lines s.traceLines) ∧
          Keeps s call (collected calls) (collected (calls ++ [call])) := by
  choose result hresult using exists_underlies registry offset pool
  refine ⟨fun calls on on' limit limit' => ?_, ?_, ?_⟩
  · rw [(hresult calls).map_untraced, (hresult calls).map_untraced]
  · intro calls on on' limit limit' replies replies' s s' hrun hrun'
    obtain ⟨_, u, events, hcalls, rfl⟩ := (hresult calls).exists_of_conduct hrun
    obtain ⟨_, u', events', hcalls', rfl⟩ := (hresult calls).exists_of_conduct hrun'
    cases hcalls.symm.trans hcalls'
    exact alike_retrace u _ _
  · refine ⟨fun calls => collected (result calls), ?_, fun calls on limit replies s hrun => ?_⟩
    · refine ((hresult []).collected_eq (underlies_nil registry offset pool)).trans ?_
      cases Session.new registry ⟨false, 0, offset⟩ pool <;> rfl
    · have hlines := (hresult calls).traceLines_eq hrun
      refine ⟨hlines, ?_, fun call reply t hexec => ⟨fun htake => ?_, ?_⟩⟩
      · rw [hlines, map_step_linesAfter, length_linesAfter]
      · cases (exec_takeTrace s htake).symm.trans hexec
        rfl
      · exact (hresult calls).keeps (hresult (calls ++ [call])) hrun hexec

/-- A failed unification has four events; a limit of two leaves room for the first two. -/
example : ([(false, 9), (true, 2), (true, 9)].map fun setting =>
    (conduct Registry.builtin ⟨setting.1, setting.2, some 0⟩ ⟨0⟩ [⟨.empty, .new, ⟨0⟩,
      .unify (.func [.var 0] .num) (.func [.num] .bool)⟩]).map fun r =>
        r.2.traceLines.map fun line => (line.step, line.action)) =
    [.ok [], .ok [(1, .decompose), (2, .bind)],
      .ok [(1, .decompose), (2, .bind), (3, .error), (4, .rollback)]] := by
  rfl

end Session

end TypeInference

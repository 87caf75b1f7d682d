/-
# Operations do not read reports

A session collects reports and obligations, and its operations add to them at
the end.  No operation reads the reports, and only those that take up
obligations read the obligations.  With other reports and obligations in front
an operation therefore answers the same and adds the same.
-/

import TypeInference.Proofs.Session.Command

namespace TypeInference

/-- A computation of two parts goes through a change of state if both parts do. -/
theorem bind_eq_map {α β : Type} {x x' : Except Fault α} {change : α → α}
    {next next' : α → Except Fault β} {change' : β → β} (h : x' = x.map change)
    (hnext : ∀ a, next' (change a) = (next a).map change') :
    (x' >>= next') = (x >>= next).map change' := by
  rw [h]
  cases x with
  | error fault => rfl
  | ok a => exact hnext a

/-- A computation that reads goes through a change of state that it does not see. -/
theorem bind_eq_map_of_eq {α β : Type} {x : Except Fault α} {next next' : α → Except Fault β}
    {change : β → β} (hnext : ∀ a, next' a = (next a).map change) :
    (x >>= next') = (x >>= next).map change := by
  cases x with
  | error fault => rfl
  | ok a => exact hnext a

namespace Session

/-- A session with other reports and obligations in front of its own. -/
def prepend (reports : List Report) (obligations : List Obligation) (s : Session) : Session :=
  { s with reports := reports ++ s.reports, obligations := obligations ++ s.obligations }

/-- What is left of closing a scope once obligations have been taken up. -/
def settleAndFile (s : Session) (failed : List DeclId) (entries : List (DeclId × Symbol)) :
    Except Fault (List ResolvedSymbol × Session) := do
  let (symbols, s) ← s.settleSymbols failed entries
  .ok (symbols, { s with resolved := s.resolved ++ symbols })

/-- What is left of ending a session once obligations have been taken up. -/
def settleRest (s : Session) : Except Fault (List (ExprId × Inferred) × Session) := do
  let s ← s.obligations.foldlM settleObligation { s with obligations := [] }
  s.settleExprs s.exprs.entries

section Prepend

variable (reports : List Report) (obligations : List Obligation) (s : Session) {origin : NodeId}

theorem report_prepend (report : Report) :
    (s.prepend reports obligations).report report =
      (s.report report).prepend reports obligations := by
  simp [prepend, Session.report]

theorem unify_prepend (a b : Ty) :
    (s.prepend reports obligations).unify a b =
      (s.unify a b).map (Prod.map id (prepend reports obligations)) := by
  rw [unify, unify, prepend]
  cases Unify.run s.subst a b <;> rfl

theorem expect_prepend (expected actual : Ty) :
    (s.prepend reports obligations).expect expected actual origin =
      (s.expect expected actual origin).map (Prod.map id (prepend reports obligations)) := by
  refine bind_eq_map (unify_prepend reports obligations s expected actual) ?_
  rintro ⟨outcome, t⟩
  cases outcome with
  | ok => exact bind_eq_map_of_eq (x := t.apply expected) fun _ => rfl
  | error error => exact congrArg (fun u => Except.ok (Ty.error, u)) (report_prepend _ _ t _)

theorem requireTrait_prepend (ty : Ty) (traitName : String) :
    (s.prepend reports obligations).requireTrait ty traitName origin =
      (s.requireTrait ty traitName origin).map (Prod.map id (prepend reports obligations)) := by
  have hregistry : (s.prepend reports obligations).registry = s.registry := rfl
  rw [requireTrait, requireTrait, hregistry]
  split
  · refine bind_eq_map_of_eq (x := s.traitSubject ty) fun subject => ?_
    split
    · rfl
    · rfl
    · simp [prepend, Except.map]
    · refine bind_eq_map_of_eq (x := s.registry.satisfies _ traitName) fun answer => ?_
      split
      · rfl
      · exact bind_eq_map_of_eq (x := s.apply _) fun _ => rfl
  · rfl

theorem logicalType_prepend (lhs rhs : Ty) :
    (s.prepend reports obligations).logicalType lhs rhs origin =
      (s.logicalType lhs rhs origin).map (Prod.map id (prepend reports obligations)) := by
  refine bind_eq_map (expect_prepend reports obligations s .bool lhs) ?_
  rintro ⟨left, t⟩
  refine bind_eq_map (expect_prepend reports obligations t .bool rhs) ?_
  rintro ⟨right, u⟩
  rfl

theorem traitType_prepend (operator : Operator) (traitName : String) (lhs rhs : Ty) :
    (s.prepend reports obligations).traitType operator traitName lhs rhs origin =
      (s.traitType operator traitName lhs rhs origin).map
        (Prod.map id (prepend reports obligations)) := by
  refine bind_eq_map (unify_prepend reports obligations s lhs rhs) ?_
  rintro ⟨agreed, t⟩
  cases agreed with
  | error error => exact congrArg (fun u => Except.ok (none, u)) (report_prepend _ _ t _)
  | ok =>
      refine bind_eq_map (requireTrait_prepend reports obligations t lhs traitName) ?_
      rintro ⟨satisfied, u⟩
      cases satisfied with
      | error error => exact congrArg (fun u => Except.ok (none, u)) (report_prepend _ _ u _)
      | ok =>
          dsimp only [Prod.map, id]
          split
          · rfl
          · exact bind_eq_map_of_eq (x := u.apply lhs) fun _ => rfl

theorem binary_prepend (operator : Operator) (lhs rhs : Inferred) :
    (s.prepend reports obligations).binary operator lhs rhs origin =
      (s.binary operator lhs rhs origin).map (Prod.map id (prepend reports obligations)) := by
  have htype : (s.prepend reports obligations).operatorType operator lhs.ty rhs.ty origin =
      (s.operatorType operator lhs.ty rhs.ty origin).map
        (Prod.map id (prepend reports obligations)) := by
    rw [operatorType, operatorType]
    split
    · exact logicalType_prepend reports obligations s lhs.ty rhs.ty
    · exact traitType_prepend reports obligations s operator _ lhs.ty rhs.ty
  refine bind_eq_map htype ?_
  rintro ⟨ty, t⟩
  cases ty with
  | none => rfl
  | some ty =>
      dsimp only [Prod.map, id]
      split
      · rfl
      · rfl

theorem freshVar_prepend (pool : VarPool) :
    (s.prepend reports obligations).freshVar pool =
      (s.freshVar pool).map (Prod.map id (Prod.map (prepend reports obligations) id)) :=
  bind_eq_map_of_eq (x := s.supply.draw pool) fun _ => rfl

theorem freshVars_prepend (pool : VarPool) (count : Nat) :
    (s.prepend reports obligations).freshVars pool count =
      (s.freshVars pool count).map (Prod.map id (Prod.map (prepend reports obligations) id)) :=
  bind_eq_map_of_eq (x := s.supply.drawMany pool count) fun _ => rfl

theorem resolveAscription_prepend (pool : VarPool) (written : Ascription) :
    (s.prepend reports obligations).resolveAscription pool written =
      (s.resolveAscription pool written).map
        (Prod.map id (Prod.map (prepend reports obligations) id)) :=
  bind_eq_map_of_eq (x := written.toTy s.supply pool) fun _ => rfl

theorem call_prepend (pool : VarPool) (callee : Ty) (args : List Ty) :
    (s.prepend reports obligations).call pool callee args origin =
      (s.call pool callee args origin).map
        (Prod.map id (Prod.map (prepend reports obligations) id)) := by
  refine bind_eq_map (freshVar_prepend reports obligations s pool) ?_
  rintro ⟨v, t, pool⟩
  refine bind_eq_map (unify_prepend reports obligations t callee _) ?_
  rintro ⟨outcome, u⟩
  cases outcome with
  | ok => exact bind_eq_map_of_eq (x := u.apply (.var v)) fun _ => rfl
  | error error => exact congrArg (fun u => Except.ok (Ty.error, u, pool)) (report_prepend _ _ u _)

theorem reconcile_prepend (pool : VarPool) (decl : DeclId) (symbol : Symbol) :
    (s.prepend reports obligations).reconcile pool decl symbol =
      (s.reconcile pool decl symbol).map
        (Prod.map id (Prod.map (prepend reports obligations) id)) := by
  rw [reconcile, reconcile]
  split
  · rfl
  · rename_i written _
    refine bind_eq_map (resolveAscription_prepend reports obligations s pool written.value) ?_
    rintro ⟨annotated, t, pool⟩
    cases annotated with
    | error error => exact congrArg (fun u => Except.ok (false, u, pool)) (report_prepend _ _ t _)
    | ok annotated =>
        refine bind_eq_map (unify_prepend reports obligations t annotated symbol.ty) ?_
        rintro ⟨outcome, u⟩
        cases outcome with
        | ok => rfl
        | error error =>
            exact congrArg (fun u => Except.ok (false, u, pool)) (report_prepend _ _ u _)

theorem reconcileAll_prepend (pool : VarPool) (entries : List (DeclId × Symbol)) :
    (s.prepend reports obligations).reconcileAll pool entries =
      (s.reconcileAll pool entries).map
        (Prod.map id (Prod.map (prepend reports obligations) id)) := by
  induction entries generalizing s pool with
  | nil => rfl
  | cons entry rest ih =>
      rw [reconcileAll, reconcileAll]
      refine bind_eq_map (reconcile_prepend reports obligations s pool entry.1 entry.2) ?_
      rintro ⟨agreed, t, pool⟩
      refine bind_eq_map (ih t pool) ?_
      rintro ⟨failed, u, pool⟩
      rfl

theorem poison_prepend (ty : Ty) :
    (s.prepend reports obligations).poison ty =
      (s.poison ty).map (prepend reports obligations) :=
  bind_eq_map_of_eq (x := s.apply ty) fun _ => bind_eq_map_of_eq fun _ => rfl

theorem settleSymbol_prepend (failed : List DeclId) (decl : DeclId) (symbol : Symbol) :
    (s.prepend reports obligations).settleSymbol failed decl symbol =
      (s.settleSymbol failed decl symbol).map (Prod.map id (prepend reports obligations)) := by
  rw [settleSymbol, settleSymbol]
  split
  · rfl
  · refine bind_eq_map_of_eq (x := s.resolveSymbol symbol) fun answer => ?_
    cases answer with
    | ok ty => rfl
    | error error =>
        refine bind_eq_map ?_ fun _ => rfl
        rw [report_prepend]
        exact poison_prepend reports obligations _ symbol.ty

theorem settleSymbols_prepend (failed : List DeclId) (entries : List (DeclId × Symbol)) :
    (s.prepend reports obligations).settleSymbols failed entries =
      (s.settleSymbols failed entries).map (Prod.map id (prepend reports obligations)) := by
  induction entries generalizing s with
  | nil => rfl
  | cons entry rest ih =>
      rw [settleSymbols, settleSymbols]
      refine bind_eq_map (settleSymbol_prepend reports obligations s failed entry.1 entry.2) ?_
      rintro ⟨first, t⟩
      refine bind_eq_map (ih t) ?_
      rintro ⟨others, u⟩
      rfl

theorem settleAndFile_prepend (failed : List DeclId) (entries : List (DeclId × Symbol)) :
    (s.prepend reports obligations).settleAndFile failed entries =
      (s.settleAndFile failed entries).map (Prod.map id (prepend reports obligations)) :=
  bind_eq_map (settleSymbols_prepend reports obligations s failed entries) fun _ => rfl

theorem discharge_prepend (obligation : Obligation) :
    (s.prepend reports obligations).discharge obligation =
      (s.discharge obligation).map (prepend reports obligations) := by
  refine bind_eq_map (requireTrait_prepend reports obligations s obligation.ty _) ?_
  rintro ⟨outcome, t⟩
  cases outcome with
  | ok => rfl
  | error error => exact congrArg Except.ok (report_prepend _ _ t _)

theorem reportOpen_prepend (subject : String) (ty : Ty) :
    (s.prepend reports obligations).reportOpen subject ty origin =
      (s.reportOpen subject ty origin).map (prepend reports obligations) := by
  rw [reportOpen, reportError, report_prepend, reportOpen]
  exact poison_prepend reports obligations _ ty

theorem settleObligation_prepend (obligation : Obligation) :
    (s.prepend reports obligations).settleObligation obligation =
      (s.settleObligation obligation).map (prepend reports obligations) := by
  refine bind_eq_map_of_eq (x := s.apply obligation.ty) fun ty => ?_
  split
  · rfl
  · exact reportOpen_prepend reports obligations s _ ty

theorem settleExprs_prepend (entries : List (ExprId × Inferred)) :
    (s.prepend reports obligations).settleExprs entries =
      (s.settleExprs entries).map (Prod.map id (prepend reports obligations)) := by
  induction entries generalizing s with
  | nil => rfl
  | cons entry rest ih =>
      rw [settleExprs, settleExprs]
      refine bind_eq_map_of_eq (x := s.apply entry.2.ty) fun ty => ?_
      split
      · refine bind_eq_map (ih s) ?_
        rintro ⟨others, t⟩
        rfl
      · exact bind_eq_map (reportOpen_prepend reports obligations s _ ty) fun t => ih t

/-- A loop goes through if each of its rounds does. -/
theorem foldlM_prepend {α : Type} {step : Session → α → Except Fault Session}
    (hstep : ∀ s a, step (prepend reports obligations s) a =
      (step s a).map (prepend reports obligations)) (list : List α) :
    list.foldlM step (s.prepend reports obligations) =
      (list.foldlM step s).map (prepend reports obligations) := by
  induction list generalizing s with
  | nil => rfl
  | cons first rest ih =>
      rw [List.foldlM_cons, List.foldlM_cons]
      exact bind_eq_map (hstep s first) ih

theorem dischargeTraits_prepend :
    (s.prepend reports []).dischargeTraits = s.dischargeTraits.map (prepend reports []) :=
  foldlM_prepend reports [] { s with obligations := [] } (discharge_prepend reports [])
    s.obligations

theorem settleScope_prepend (pool : VarPool) (scope : Scope) :
    (s.prepend reports []).settleScope pool scope =
      (s.settleScope pool scope).map (Prod.map id (Prod.map (prepend reports []) id)) := by
  refine bind_eq_map (reconcileAll_prepend reports [] s pool _) ?_
  rintro ⟨failed, t, pool⟩
  refine bind_eq_map (dischargeTraits_prepend reports t) fun u => ?_
  refine bind_eq_map (settleSymbols_prepend reports [] u failed _) ?_
  rintro ⟨symbols, w⟩
  rfl

theorem closeScope_prepend (pool : VarPool) (table : SymbolTable) :
    (s.prepend reports []).closeScope pool table =
      (s.closeScope pool table).map
        (Prod.map id (Prod.map id (Prod.map (prepend reports []) id))) := by
  rw [closeScope, closeScope]
  split
  · rfl
  · rename_i scope outer _
    exact bind_eq_map (settleScope_prepend reports s pool scope) fun _ => rfl

theorem settleRest_prepend :
    (s.prepend reports []).settleRest = s.settleRest.map (Prod.map id (prepend reports [])) :=
  bind_eq_map (foldlM_prepend reports [] { s with obligations := [] }
    (settleObligation_prepend reports []) s.obligations)
    fun t => settleExprs_prepend reports [] t t.exprs.entries

theorem settle_prepend :
    (s.prepend reports []).settle = s.settle.map (Prod.map id (prepend reports [])) :=
  bind_eq_map (dischargeTraits_prepend reports s) fun t => settleRest_prepend reports t

end Prepend

end Session

/-- Whether a command takes up obligations. -/
def Command.discharges : Command → Bool
  | .dischargeTraits | .closeScope => true
  | _ => false

/-- A command goes through with other reports in front, and also with other
obligations in front if it does not take up obligations. -/
theorem Workspace.exec_prepend {reports : List Report} {obligations : List Obligation}
    {command : Command} (hobligations : command.discharges = true → obligations = [])
    (w : Workspace) :
    { w with session := w.session.prepend reports obligations }.exec command =
      (w.exec command).map
        fun r => (r.1, { r.2 with session := r.2.session.prepend reports obligations }) := by
  cases command with
  | freshVars count =>
      exact bind_eq_map (Session.freshVars_prepend _ _ w.session w.pool count) fun _ => rfl
  | freshType => exact bind_eq_map (Session.freshVar_prepend _ _ w.session w.pool) fun _ => rfl
  | unify expected actual =>
      exact bind_eq_map (Session.unify_prepend _ _ w.session expected actual) fun _ => rfl
  | expect expected actual origin =>
      exact bind_eq_map (Session.expect_prepend _ _ w.session expected actual) fun _ => rfl
  | requireTrait ty traitName origin =>
      exact bind_eq_map (Session.requireTrait_prepend _ _ w.session ty traitName) fun _ => rfl
  | dischargeTraits =>
      cases hobligations rfl
      exact bind_eq_map (Session.dischargeTraits_prepend _ w.session) fun _ => rfl
  | binary operator lhs rhs origin =>
      exact bind_eq_map (Session.binary_prepend _ _ w.session operator lhs rhs) fun _ => rfl
  | call callee args origin =>
      exact bind_eq_map (Session.call_prepend _ _ w.session w.pool callee args) fun _ => rfl
  | resolveAscription written =>
      exact bind_eq_map (Session.resolveAscription_prepend _ _ w.session w.pool written)
        fun _ => rfl
  | recordExpr expr inferred => rfl
  | report report =>
      exact congrArg (fun t => Except.ok (Reply.done, { w with session := t }))
        (Session.report_prepend _ _ w.session report)
  | takeTrace => rfl
  | declare name span ascription => rfl
  | publish symbol => exact bind_eq_map_of_eq (x := w.table.declare symbol) fun _ => rfl
  | lookupOrUnknown name origin span =>
      dsimp only [exec]
      rw [Session.lookupOrUnknown, Session.lookupOrUnknown]
      split
      · rfl
      · exact congrArg (fun t => Except.ok (Reply.symbol .unknown, { w with session := t }))
          (Session.report_prepend _ _ w.session _)
  | pushScope => rfl
  | popScope =>
      dsimp only [exec]
      split
      · rfl
      · rfl
  | closeScope =>
      cases hobligations rfl
      exact bind_eq_map (Session.closeScope_prepend _ w.session w.pool w.table) fun _ => rfl

theorem Session.exec_prepend {reports : List Report} {obligations : List Obligation} {call : Call}
    (hobligations : call.command.discharges = true → obligations = []) (s : Session) :
    (s.prepend reports obligations).exec call =
      (s.exec call).map (Prod.map id (prepend reports obligations)) :=
  bind_eq_map
    (Workspace.exec_prepend hobligations ⟨s, call.declarations, call.table, call.pool⟩) fun _ => rfl

end TypeInference

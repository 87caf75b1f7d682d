/-
# The numbers of variables are not seen

Two sessions are given the same commands, but the second starts `k` numbers higher
and every variable it is handed is `k` higher.  Then the second is at every point the
first with its numbers moved up: the answers, the bindings, the recorded types and
the symbols.  Diagnostics name variables by letters, and a unit is handed on only
when it has no variables left, so what the two sessions show in the end is the same.

Not every command draws variables.  `Follows` says of both kinds what a run needs:
those that draw none are renamed without a condition, and may end in a fault of the
caller; those that draw need room for the numbers.
-/

import TypeInference.Proofs.Session.Drawing

namespace TypeInference

/-- A command with other numbers. -/
def Command.rename (r : VarId ↪o VarId) : Command → Command
  | .unify expected actual => .unify (expected.rename r) (actual.rename r)
  | .expect expected actual origin => .expect (expected.rename r) (actual.rename r) origin
  | .requireTrait ty traitName origin => .requireTrait (ty.rename r) traitName origin
  | .binary operator lhs rhs origin => .binary operator (lhs.rename r) (rhs.rename r) origin
  | .call callee args origin => .call (callee.rename r) (args.map (Ty.rename r)) origin
  | .recordExpr expr inferred => .recordExpr expr (inferred.rename r)
  | .report filed => .report (filed.rename r)
  | .publish symbol => .publish (symbol.rename r)
  | command => command

/-- An answer with other numbers. -/
def Reply.rename (r : VarId ↪o VarId) : Reply → Reply
  | .vars ids => .vars (ids.map r)
  | .ty answer => .ty (answer.rename r)
  | .inferred answer => .inferred (answer.rename r)
  | .outcome answer => .outcome (renameOutcome r id answer)
  | .ascribed answer => .ascribed (renameOutcome r (Ty.rename r) answer)
  | .symbol answer => .symbol (answer.rename r)
  | .popped scope => .popped (scope.map (Scope.rename r))
  | .closed symbols => .closed (symbols.map (ResolvedSymbol.rename r))
  | reply => reply

/-- The numbers that a workspace can still hand out. -/
def Workspace.numbers (w : Workspace) : VarSupply × VarPool := (w.session.supply, w.pool)

/-- A workspace with its numbers moved up, beside another pool. -/
def Workspace.move (k : Nat) (pool' : VarPool) (w : Workspace) : Workspace where
  session := w.session.rename (shift k)
  declarations := w.declarations
  table := w.table.rename (shift k)
  pool := pool'

/-- One command beside the same with the numbers moved up. -/
structure Follows (k : Nat) (pool' : VarPool) (w : Workspace)
    (x x' : Except Fault (Reply × Workspace)) : Prop where
  fault : ∀ {fault}, x = .error fault → fault = .idsExhausted ∨ x' = .error (fault.rename (shift k))
  drawn : ∀ {reply w'}, x = .ok (reply, w') → Drawn w.numbers w'.numbers
  moved : ∀ {reply w'}, x = .ok (reply, w') → w'.pool = w.pool →
    w'.session.supply.next + k ≤ w.session.supply.stop →
    x' = .ok (reply.rename (shift k), w'.move k pool')

section Follows

variable {k : Nat} {pool' : VarPool} {w : Workspace} {x x' : Except Fault (Reply × Workspace)}

theorem Parallel.follows
    (h : Parallel k Workspace.numbers (Reply.rename (shift k)) (Workspace.move k pool') w.numbers
      x x') : Follows k pool' w x x' :=
  ⟨fun hfault => .inl (h.exhausted hfault), h.drawn, h.moved⟩

/-- A command that draws nothing. -/
theorem Follows.of_renamed
    (hx' : x' = renamed (shift k) (Prod.map (Reply.rename (shift k)) (Workspace.move k pool')) x)
    (hnumbers : ∀ {reply w'}, x = .ok (reply, w') → w'.numbers = w.numbers) :
    Follows k pool' w x x' where
  fault h := .inr (by rw [hx', h]; rfl)
  drawn h := hnumbers h ▸ .refl _
  moved h _ _ := by rw [hx', h]; rfl

/-- A command that changes the session alone. -/
theorem Follows.of_session {α α' : Type} {f : α → α'} {y : Except Fault (α × Session)}
    {y' : Except Fault (α' × Session)}
    (hy' : y' = renamed (shift k) (Prod.map f (Session.rename (shift k))) y)
    (hsupply : ∀ {a s}, y = .ok (a, s) → s.supply = w.session.supply)
    {answer : α → Reply} {answer' : α' → Reply}
    (hanswer : ∀ a, answer' (f a) = (answer a).rename (shift k)) :
    Follows k pool' w (y >>= fun (a, session) => .ok (answer a, { w with session }))
      (y' >>= fun (a, session) => .ok (answer' a, { w.move k pool' with session })) := by
  refine .of_renamed (bind_eq_renamed hy' fun (a, s) => ?_) fun h => ?_
  · exact congrArg (fun reply => Except.ok (reply, _)) (hanswer a)
  · obtain ⟨⟨a, s⟩, hy, h⟩ := exists_of_bind_eq_ok h
    cases h
    exact congrArg (·, w.pool) (hsupply hy)

end Follows

namespace Session

variable {s s' : Session} {origin : NodeId}

theorem supply_unify {a b : Ty} {outcome : Except TypeError Unit}
    (h : s.unify a b = .ok (outcome, s')) : s'.supply = s.supply := by
  obtain ⟨_, _, rfl⟩ := frame_unify h
  rfl

theorem supply_requireTrait {ty : Ty} {traitName : String} {outcome : Except TypeError Unit}
    (h : s.requireTrait ty traitName origin = .ok (outcome, s')) : s'.supply = s.supply := by
  obtain ⟨_, rfl⟩ := frame_requireTrait h
  rfl

theorem supply_dischargeTraits (h : s.dischargeTraits = .ok s') : s'.supply = s.supply := by
  obtain ⟨_, _, rfl⟩ := frame_dischargeTraits h
  rfl

theorem supply_expect {expected actual ty : Ty}
    (h : s.expect expected actual origin = .ok (ty, s')) : s'.supply = s.supply := by
  obtain ⟨_, _, _, rfl⟩ := frame_expect h
  rfl

theorem supply_binary {operator : Operator} {lhs rhs inferred : Inferred}
    (h : s.binary operator lhs rhs origin = .ok (inferred, s')) : s'.supply = s.supply := by
  obtain ⟨_, _, _, _, rfl⟩ := frame_binary h
  rfl

theorem supply_lookupOrUnknown (s : Session) (table : SymbolTable) (name : String)
    (origin : NodeId) (span : Option Span) :
    (s.lookupOrUnknown table name origin span).2.supply = s.supply := by
  obtain ⟨_, heq⟩ := s.frame_lookupOrUnknown table name origin span
  rw [heq]

end Session

namespace Workspace

variable {k : Nat} {pool' : VarPool} {w w' : Workspace}

theorem follows_exec (hs : w.session.subst.WellFormed) (hwaits : w.session.Waits)
    {command : Command} (htrace : command ≠ .takeTrace) :
    Follows k pool' w (w.exec command) ((w.move k pool').exec (command.rename (shift k))) := by
  cases command with
  | takeTrace => exact absurd rfl htrace
  | freshVars count =>
      refine Parallel.follows ?_
      exact (Session.parallel_freshVars k pool' w.session w.pool count).bind fun _ _ _ =>
        .of_eq_ok rfl rfl rfl
  | freshType =>
      refine Parallel.follows ?_
      exact (Session.parallel_freshVar k pool' w.session w.pool).bind fun _ _ _ =>
        .of_eq_ok rfl rfl rfl
  | call callee args origin =>
      refine Parallel.follows ?_
      exact (Session.parallel_call k pool' hs.acyclic callee args origin).bind fun _ _ _ =>
        .of_eq_ok rfl rfl rfl
  | resolveAscription written =>
      refine Parallel.follows ?_
      exact (Session.parallel_resolveAscription k pool' w.session w.pool written).bind
        fun _ _ _ => .of_eq_ok rfl rfl rfl
  | unify expected actual =>
      exact .of_session (Session.unify_rename (shift k) w.session expected actual)
        Session.supply_unify fun _ => rfl
  | expect expected actual origin =>
      exact .of_session (Session.expect_rename (shift k) w.session expected actual origin)
        Session.supply_expect fun _ => rfl
  | requireTrait ty traitName origin =>
      exact .of_session (Session.requireTrait_rename (shift k) w.session ty traitName origin)
        Session.supply_requireTrait fun _ => rfl
  | binary operator lhs rhs origin =>
      exact .of_session (Session.binary_rename (shift k) w.session operator lhs rhs origin)
        Session.supply_binary fun _ => rfl
  | dischargeTraits =>
      refine .of_renamed (bind_eq_renamed (Session.dischargeTraits_rename (shift k) w.session)
        fun _ => rfl) fun h => ?_
      obtain ⟨t, hdischarge, h⟩ := exists_of_bind_eq_ok h
      cases h
      exact congrArg (·, w.pool) (Session.supply_dischargeTraits hdischarge)
  | recordExpr expr inferred =>
      refine .of_renamed ?_ fun h => by cases h; rfl
      exact congrArg (fun session => Except.ok (Reply.done, { w.move k pool' with session }))
        (Session.recordExpr_rename (shift k) w.session expr inferred)
  | report report =>
      refine .of_renamed ?_ fun h => by cases h; rfl
      exact congrArg (fun session => Except.ok (Reply.done, { w.move k pool' with session }))
        (Session.report_rename (shift k) w.session report)
  | declare name span ascription => exact .of_renamed rfl fun h => by cases h; rfl
  | pushScope => exact .of_renamed rfl fun h => by cases h; rfl
  | publish symbol =>
      refine .of_renamed (bind_eq_renamed (w.table.declare_rename (shift k) symbol) fun _ => rfl)
        fun h => ?_
      obtain ⟨table, _, h⟩ := exists_of_bind_eq_ok h
      cases h
      rfl
  | lookupOrUnknown name origin span =>
      have hlookup := w.session.lookupOrUnknown_rename (shift k) w.table name origin span
      refine .of_renamed ?_ fun h => ?_
      · exact congrArg (fun result : Symbol × Session =>
          Except.ok (Reply.symbol result.1, { w.move k pool' with session := result.2 })) hlookup
      · cases h
        exact congrArg (·, w.pool) (w.session.supply_lookupOrUnknown w.table name origin span)
  | popScope =>
      have hpop : (w.move k pool').table.pop? = w.table.pop?.map _ :=
        w.table.pop?_rename (shift k)
      have hcommand : Command.popScope.rename (shift k) = .popScope := rfl
      rw [hcommand, exec, exec, hpop]
      cases w.table.pop? with
      | none => exact .of_renamed rfl fun h => by cases h; rfl
      | some popped => exact .of_renamed rfl fun h => by cases h; rfl
  | closeScope =>
      cases hpop : w.table.pop? with
      | none =>
          have hpop' : (w.move k pool').table.pop? = none := by
            rw [move, SymbolTable.pop?_rename, hpop]
            rfl
          have hfault : w.exec .closeScope = .error .noScopeToClose := by
            rw [exec, Session.closeScope, hpop]
            rfl
          have hfault' : (w.move k pool').exec .closeScope = .error .noScopeToClose := by
            rw [exec, Session.closeScope, hpop']
            rfl
          refine .of_renamed ?_ fun h => by cases hfault.symm.trans h
          rw [hfault]
          exact hfault'
      | some popped =>
          refine Parallel.follows ?_
          exact (Session.parallel_closeScope k pool' hs hwaits hpop).bind fun _ _ _ =>
            .of_eq_ok rfl rfl rfl

/-- A session that starts higher is a new session with its numbers moved up. -/
theorem new_move {registry : Registry} {trace : Bool} {limit offset : Nat} {pool : VarPool}
    (pool' : VarPool) (h : new registry ⟨trace, limit, some offset⟩ pool = .ok w) :
    new registry ⟨trace, limit, some (offset + k)⟩ pool' = .ok (w.move k pool') := by
  cases h
  cases trace with
  | false => rfl
  | true => rfl

theorem reachable_of_exec {command : Command} {reply : Reply} (hw : w.session.Reachable)
    (h : w.exec command = .ok (reply, w')) : w'.session.Reachable :=
  hw.later (.single (.exec h))

/-- Along a run the pool and, while it is the same, the next number only go up. -/
theorem drawn_run {commands : List Command} {replies : List Reply} (hw : w.session.Reachable)
    (htrace : .takeTrace ∉ commands) (h : w.run commands = .ok (replies, w')) :
    Drawn w.numbers w'.numbers := by
  induction commands generalizing w replies with
  | nil =>
      cases h
      exact .refl _
  | cons command rest ih =>
      obtain ⟨⟨reply, middle⟩, hexec, h⟩ := exists_of_bind_eq_ok h
      obtain ⟨⟨others, last⟩, hrun, h⟩ := exists_of_bind_eq_ok h
      cases h
      -- What was drawn does not depend on what the command is compared with.
      have hfirst : Follows 0 w.pool w (w.exec command) _ :=
        follows_exec hw.wellFormed hw.waits (List.ne_of_not_mem_cons htrace).symm
      exact (hfirst.drawn hexec).trans
        (ih (reachable_of_exec hw hexec) (List.not_mem_of_not_mem_cons htrace) hrun)

/-- A run with the numbers moved up answers the same with the numbers moved up. -/
theorem run_move {commands : List Command} {replies : List Reply} (hw : w.session.Reachable)
    (htrace : .takeTrace ∉ commands) (h : w.run commands = .ok (replies, w'))
    (hpool : w'.pool = w.pool) (hroom : w'.session.supply.next + k ≤ w.session.supply.stop) :
    (w.move k pool').run (commands.map (Command.rename (shift k))) =
      .ok (replies.map (Reply.rename (shift k)), w'.move k pool') := by
  induction commands generalizing w replies with
  | nil =>
      cases h
      rfl
  | cons command rest ih =>
      obtain ⟨⟨reply, middle⟩, hexec, h⟩ := exists_of_bind_eq_ok h
      obtain ⟨⟨others, last⟩, hrun, h⟩ := exists_of_bind_eq_ok h
      cases h
      have hcommand : command ≠ .takeTrace := (List.ne_of_not_mem_cons htrace).symm
      have hrest := List.not_mem_of_not_mem_cons htrace
      have hmiddle := reachable_of_exec hw hexec
      have hfirst : Follows k pool' w (w.exec command) _ :=
        follows_exec hw.wellFormed hw.waits hcommand
      -- The pool and the room at the end give the pool and the room after the first command.
      have hlater := drawn_run hmiddle hrest hrun
      have hsame := (hfirst.drawn hexec).pool_eq hlater hpool
      obtain ⟨hstop, _⟩ := (hfirst.drawn hexec).supply hsame
      obtain ⟨_, hnext⟩ := hlater.supply (hpool.trans hsame.symm)
      rw [List.map_cons, run, hfirst.moved hexec hsame ((Nat.add_le_add_right hnext k).trans hroom)]
      have hothers := ih hmiddle hrest hrun (hpool.trans hsame.symm) (hstop.symm ▸ hroom)
      exact congrArg (· >>= fun result =>
        Except.ok (reply.rename (shift k) :: result.1, result.2)) hothers

theorem exists_of_run_append {early late : List Command} {replies : List Reply}
    (h : w.run (early ++ late) = .ok (replies, w')) :
    ∃ answers middle others, w.run early = .ok (answers, middle) ∧
      middle.run late = .ok (others, w') := by
  induction early generalizing w replies with
  | nil => exact ⟨[], w, replies, rfl, h⟩
  | cons command rest ih =>
      obtain ⟨⟨reply, next⟩, hexec, h⟩ := exists_of_bind_eq_ok h
      obtain ⟨⟨tail, last⟩, hrun, h⟩ := exists_of_bind_eq_ok h
      cases h
      obtain ⟨answers, middle, others, hearly, hlate⟩ := ih hrun
      refine ⟨reply :: answers, middle, others, ?_, hlate⟩
      rw [run, hexec]
      exact congrArg (· >>= fun result => Except.ok (reply :: result.1, result.2)) hearly

end Workspace

namespace Session

variable {s s' : Session}

/-- While nothing is reported, the final forms of symbols have no variables. -/
def FiledClosed (s : Session) : Prop :=
  s.reports = [] → ∀ resolved ∈ s.resolved, resolved.ty.isClosed = true

theorem Act.filedClosed {given : Ty → Prop} (h : Act given s s') (hs : s.FiledClosed) :
    s'.FiledClosed := by
  intro hnone
  have hclosed := hs (h.advances.reports_eq_nil hnone)
  cases h with
  | draw | retrace | report => exact hclosed
  | unify _ _ h =>
      obtain ⟨_, _, rfl⟩ := frame_unify h
      exact hclosed
  | requireTrait h =>
      obtain ⟨_, rfl⟩ := frame_requireTrait h
      exact hclosed
  | dischargeTraits h =>
      obtain ⟨_, _, rfl⟩ := frame_dischargeTraits h
      exact hclosed
  | poison _ h =>
      obtain ⟨_, rfl⟩ := frame_poison h
      exact hclosed
  | file symbols hsettled =>
      refine List.forall_mem_append.mpr ⟨hclosed, fun symbol hsymbol => ?_⟩
      obtain ⟨source, decl, ty, _, _, hty, rfl⟩ := hsettled hnone symbol hsymbol
      exact (Ty.isClosed_erase ty).trans hty

theorem Acts.filedClosed {given : Ty → Prop} (h : Acts given s s') (hs : s.FiledClosed) :
    s'.FiledClosed := by
  induction h with
  | refl => exact hs
  | tail _ hact ih => exact hact.filedClosed ih

theorem Step.filedClosed (h : Step s s') (hs : s.FiledClosed) : s'.FiledClosed := by
  rcases h.acts with rfl | ⟨command, hacts⟩
  · exact hs
  · refine hacts.filedClosed ?_
    cases command <;> exact hs

theorem Reachable.filedClosed (h : s.Reachable) : s.FiledClosed := by
  refine h.holds (fun hnew => ?_) fun _ hstep hs => hstep.filedClosed hs
  obtain ⟨supply, _, h⟩ := exists_of_bind_eq_ok hnew
  cases h
  exact fun _ _ hmem => absurd hmem List.not_mem_nil

/-- A session and the same with other numbers end alike. -/
theorem Reachable.finish_rename (hs : s.Reachable) (r : VarId ↪o VarId) :
    (s.rename r).finish = s.finish := by
  obtain ⟨settled, last, hsettle, hquiet⟩ := exists_settle hs.wellFormed hs.waits
  have hsettle' : (s.rename r).settle =
      .ok (settled.map (Prod.map id (Inferred.rename r)), last.rename r) := by
    rw [settle_rename, hsettle]
    rfl
  rw [finish_of_settle hsettle, finish_of_settle hsettle']
  by_cases hnone : last.reports = []
  · have hnone' : (last.rename r).reports = [] := List.map_eq_nil_iff.mpr hnone
    have hlast := hquiet hnone
    have hsettled : settled.map (Prod.map id (Inferred.rename r)) = settled := by
      rw [← List.map_id settled, List.map_map]
      exact List.map_congr_left fun entry hentry =>
        Prod.ext rfl (Inferred.rename_of_isClosed (hlast.closed entry hentry))
    have hresolved : last.resolved.map (ResolvedSymbol.rename r) = last.resolved := by
      rw [hlast.unchanged] at hnone ⊢
      rw [← List.map_id s.resolved, List.map_map]
      exact List.map_congr_left fun resolved hmem =>
        ResolvedSymbol.rename_of_isClosed (hs.filedClosed hnone resolved hmem)
    rw [if_pos hnone, if_pos hnone', hsettled]
    exact congrArg (fun symbols => Except.ok (Except.ok (CheckedUnit.mk symbols settled))) hresolved
  · have hsome : ¬ (last.rename r).reports = [] := fun h => hnone (List.map_eq_nil_iff.mp h)
    rw [if_neg hnone, if_neg hsome]
    exact congrArg (fun list => Except.ok (Except.error list)) (diagnostics_rename r last)

end Session

/-! ## Two numberings -/

/-- The second of two sessions starts `k` numbers higher than the first and is given the
same commands, with every variable `k` higher.  The first has not turned to the pool, and
its numbers moved up by `k` stay below the last one.  Then after every part of the
commands the second is the first with the numbers moved up, its answers are those of the
first with the numbers moved up, and its diagnostics and the way it would end are the same.
A command that ends the one session in a fault ends the other in the same fault. -/
theorem numbering_not_observable (registry : Registry) (trace : Bool) (limit offset k : Nat)
    (pool pool' : VarPool) (commands : List Command)
    (htrace : .takeTrace ∉ commands) {start start' w : Workspace} {replies : List Reply}
    (hstart : Workspace.new registry ⟨trace, limit, some offset⟩ pool = .ok start)
    (hstart' : Workspace.new registry ⟨trace, limit, some (offset + k)⟩ pool' = .ok start')
    (hrun : start.run commands = .ok (replies, w)) (hpool : w.pool = pool)
    (hroom : w.session.supply.next + k ≤ maxVarId) {early : List Command}
    (hearly : early <+: commands) :
    ∃ answers u u', start.run early = .ok (answers, u) ∧
      start'.run (early.map (Command.rename (shift k))) =
        .ok (answers.map (Reply.rename (shift k)), u') ∧
      u'.session = u.session.rename (shift k) ∧ u'.table = u.table.rename (shift k) ∧
      u'.session.diagnostics = u.session.diagnostics ∧
      u'.session.finish = u.session.finish ∧
      ∀ command fault, command ≠ .takeTrace → fault ≠ .idsExhausted →
        u.exec command = .error fault →
        u'.exec (command.rename (shift k)) = .error (fault.rename (shift k)) := by
  have hfirst : start.session.Reachable :=
    Session.reachable_of_run registry ⟨trace, limit, some offset⟩ pool [] hstart rfl
  cases (Workspace.new_move pool' hstart).symm.trans hstart'
  have hpool₀ : start.pool = pool := by cases hstart; rfl
  have hstop : start.session.supply.stop = maxVarId := by cases hstart; rfl
  obtain ⟨late, rfl⟩ := hearly
  obtain ⟨answers, u, others, hearly, hlate⟩ := Workspace.exists_of_run_append hrun
  have htraceEarly := fun h => htrace (List.mem_append_left late h)
  have hu := hfirst.later (Session.later_of_run hearly)
  have hbefore := Workspace.drawn_run hfirst htraceEarly hearly
  have hafter := Workspace.drawn_run hu (fun h => htrace (List.mem_append_right early h)) hlate
  have hpool : w.pool = start.pool := hpool.trans hpool₀.symm
  have hsame := hbefore.pool_eq hafter hpool
  obtain ⟨_, hnext⟩ := hafter.supply (hpool.trans hsame.symm)
  have hmove : (start.move k pool').run _ = _ := Workspace.run_move hfirst htraceEarly hearly hsame
    (((Nat.add_le_add_right hnext k).trans hroom).trans_eq hstop.symm)
  refine ⟨answers, u, u.move k pool', hearly, hmove, rfl, rfl, ?_, ?_, ?_⟩
  · exact Session.diagnostics_rename (shift k) u.session
  · exact hu.finish_rename (shift k)
  · intro command fault hcommand hfault hexec
    have hfollows : Follows k pool' u (u.exec command) _ :=
      Workspace.follows_exec hu.wellFormed hu.waits hcommand
    exact (hfollows.fault hexec).resolve_left hfault

/-- A variable is bound to a function type with an open variable, the function is used as
a string, and the open variable is recorded; the second session starts a thousand higher. -/
theorem numbering_not_observable_open_function : ∃ start start' answers u u',
    Workspace.new Registry.builtin { trace := true, varOffset := some 7 } ⟨0⟩ = .ok start ∧
    Workspace.new Registry.builtin { trace := true, varOffset := some 1007 } ⟨64⟩ = .ok start' ∧
    start.run [.freshVars 2, .unify (.var 7) (.func [.var 8] .bool),
      .expect (.var 7) .str (.expr 0), .recordExpr 1 (.ofTy (.var 8))] = .ok (answers, u) ∧
    start'.run [.freshVars 2, .unify (.var 1007) (.func [.var 1008] .bool),
      .expect (.var 1007) .str (.expr 0), .recordExpr 1 (.ofTy (.var 1008))] =
        .ok (answers.map (Reply.rename (shift 1000)), u') ∧
    u.session.reports.length = 1 ∧ u'.session.diagnostics = u.session.diagnostics ∧
    u'.session.finish = u.session.finish := by
  obtain ⟨answers, u, u', hrun, hrun', _, _, hdiagnostics, hfinish, _⟩ :=
    numbering_not_observable Registry.builtin true 1024 7 1000 ⟨0⟩ ⟨64⟩
      [.freshVars 2, .unify (.var 7) (.func [.var 8] .bool),
        .expect (.var 7) .str (.expr 0), .recordExpr 1 (.ofTy (.var 8))]
      (by simp) rfl rfl rfl rfl (by decide) List.prefix_rfl
  have hreports : u.session.reports.length = 1 := by
    cases hrun
    rfl
  exact ⟨_, _, answers, u, u', rfl, rfl, hrun, hrun', hreports, hdiagnostics, hfinish⟩

end TypeInference

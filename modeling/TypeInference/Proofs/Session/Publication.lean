/-
# Declarations in a checked unit

The symbols of a unit are those of the scopes that were closed, one closing after the
other.  A table refuses a declaration only while one of its open scopes has it, and
it forgets a scope that is closed.  A declaration can therefore be published again
once its scope is gone, and if the second scope is closed too it stands in the unit
twice.

That is the only way.  Over a whole run a declaration is filed or open at most as
often as it was published, and for it to be so twice it must have been published when
it was already filed.
-/

import TypeInference.Proofs.Session.Closing
import TypeInference.Proofs.Symbol.Scoping

namespace TypeInference

/-- A run of commands on one session and one table.  Other sessions may take numbers from
the pool between two commands. -/
inductive Workspace.Course (start : Workspace) : List Command → Workspace → Prop
  | start : Course start [] start
  | exec {commands : List Command} {w w' : Workspace} {pool : VarPool} {command : Command}
      {reply : Reply} (before : Course start commands w)
      (h : { w with pool }.exec command = .ok (reply, w')) :
      Course start (commands ++ [command]) w'

/-- The declaration that a command publishes. -/
def Command.published? : Command → Option DeclId
  | .publish symbol => symbol.decl
  | _ => none

/-- The declarations of the symbols that were filed, in the order of closing. -/
def Session.filed (s : Session) : List DeclId := s.resolved.map ResolvedSymbol.decl

/-- How many symbols of a declaration are filed or in open scopes. -/
def Workspace.copies (w : Workspace) (decl : DeclId) : Nat :=
  w.session.filed.count decl + w.table.decls.count decl

namespace Session

variable {s s' : Session}

/-- Closing a scope files the declarations of the scope. -/
theorem filed_closeScope (hreach : s.Reachable) {pool pool' : VarPool}
    {table outer : SymbolTable} {symbols : List ResolvedSymbol}
    (h : s.closeScope pool table = .ok (symbols, outer, s', pool')) :
    ∃ scope, table.pop? = some (scope, outer) ∧
      s'.filed = s.filed ++ scope.symbols.keys := by
  rw [closeScope] at h
  split at h
  · cases h
  rename_i scope _ hpop
  obtain ⟨⟨_, _, _⟩, hsettle, h⟩ := exists_of_bind_eq_ok h
  cases h
  obtain ⟨⟨failed, t, _⟩, hreconcile, -⟩ := exists_of_bind_eq_ok hsettle
  have hs := hreach.wellFormed
  obtain ⟨hblames, -⟩ := blames_reconcileAll hs.acyclic hreconcile
  obtain ⟨symbols, _, u, w, hsettle', _, hu, hresolved, _, _, hforms⟩ :=
    exists_settleScope hs hreach.waits hreconcile
  cases hsettle'.symm.trans hsettle
  obtain ⟨_, hcloses⟩ := exists_closes_of_settleSymbols hu hforms
  refine ⟨scope, hpop, ?_⟩
  have hkept : w.resolved = s.resolved :=
    hcloses.blames.resolved.trans (hresolved.trans hblames.resolved)
  have hforms : List.Forall₂ w.FinalForm scope.symbols.entries symbols :=
    hcloses.forms.imp fun _ _ hform => hform.finalForm (hcloses.grows.acyclic hu)
  show (w.resolved ++ symbols).map _ = _
  rw [hkept, List.map_append, map_decl_of_finalForm hforms]
  rfl

end Session

theorem SymbolTable.decls_declare {table after : SymbolTable} {symbol : Symbol}
    (h : table.declare symbol = .ok after) :
    ∃ decl, symbol.decl = some decl ∧ table.get? decl = none ∧
      after.decls.Perm (decl :: table.decls) := by
  obtain ⟨decl, scope, outer, hdecl, hget, hscopes, rfl⟩ := declare_eq_ok_iff.mp h
  refine ⟨decl, hdecl, hget, ?_⟩
  have hnew : scope.symbols.find? decl = none :=
    List.findSome?_eq_none_iff.mp hget scope (by rw [hscopes]; exact List.mem_cons_self)
  obtain ⟨early, late, hentries, hinsert⟩ := KeyMap.exists_entries_insert hnew symbol
  have hkeys : (scope.symbols.insert decl symbol).keys.Perm (decl :: scope.symbols.keys) := by
    rw [KeyMap.keys, KeyMap.keys, hentries, hinsert, List.map_append, List.map_cons,
      List.map_append]
    exact List.perm_middle
  rw [decls, decls, hscopes]
  exact hkeys.append_right _

theorem SymbolTable.decls_pop? {table outer : SymbolTable} {scope : Scope}
    (h : table.pop? = some (scope, outer)) :
    table.decls = scope.symbols.keys ++ outer.decls := by
  rw [pop?] at h
  split at h
  · cases h
  · rename_i hscopes
    cases h
    rw [decls, hscopes]
    rfl

theorem SymbolTable.notMem_decls_of_get?_eq_none {table : SymbolTable} {decl : DeclId}
    (h : table.get? decl = none) : decl ∉ table.decls := by
  intro hmem
  obtain ⟨scope, hscope, hkey⟩ := List.mem_flatMap.mp hmem
  obtain ⟨entry, hentry, rfl⟩ := List.mem_map.mp hkey
  have hfind := KeyMap.find?_eq_some_iff.mpr hentry
  rw [List.findSome?_eq_none_iff.mp h scope hscope] at hfind
  cases hfind

namespace Workspace

/-- What a command does to the declarations that are filed or open. -/
inductive Handles (w w' : Workspace) : Command → Prop
  /-- A declaration that no open scope has is added to the innermost one. -/
  | publish {symbol : Symbol} {decl : DeclId} (hdecl : symbol.decl = some decl)
      (hnew : w.table.get? decl = none) (hfiled : w'.session.filed = w.session.filed)
      (hopen : w'.table.decls.Perm (decl :: w.table.decls)) : Handles w w' (.publish symbol)
  /-- The declarations of the innermost scope are filed. -/
  | close {decls : List DeclId} (hfiled : w'.session.filed = w.session.filed ++ decls)
      (hopen : w.table.decls = decls ++ w'.table.decls) : Handles w w' .closeScope
  | other {command : Command} (hcommand : command.published? = none)
      (hfiled : w'.session.filed = w.session.filed)
      (hopen : w'.table.decls.Sublist w.table.decls) : Handles w w' command

variable {w w' : Workspace} {command : Command} {reply : Reply}

theorem Handles.of_session {session : Session} {pool : VarPool} {declarations : Declarations}
    (hcommand : command.published? = none) (hfiled : session.filed = w.session.filed) :
    Handles w ⟨session, declarations, w.table, pool⟩ command :=
  .other hcommand hfiled (List.Sublist.refl _)

theorem handles_exec (hreach : w.session.Reachable) (h : w.exec command = .ok (reply, w')) :
    Handles w w' command := by
  cases command with
  | freshVars count =>
      obtain ⟨⟨_, _, _⟩, hdraw, h⟩ := exists_of_bind_eq_ok h
      obtain ⟨_, _, hdraw⟩ := exists_of_bind_eq_ok hdraw
      cases hdraw
      cases h
      exact .of_session rfl rfl
  | freshType =>
      obtain ⟨⟨_, _, _⟩, hdraw, h⟩ := exists_of_bind_eq_ok h
      obtain ⟨_, _, hdraw⟩ := exists_of_bind_eq_ok hdraw
      cases hdraw
      cases h
      exact .of_session rfl rfl
  | resolveAscription written =>
      obtain ⟨⟨_, _, _⟩, hwritten, h⟩ := exists_of_bind_eq_ok h
      obtain ⟨_, _, hwritten⟩ := exists_of_bind_eq_ok hwritten
      cases hwritten
      cases h
      exact .of_session rfl rfl
  | unify expected actual =>
      obtain ⟨⟨_, _⟩, hunify, h⟩ := exists_of_bind_eq_ok h
      obtain ⟨_, _, rfl⟩ := Session.frame_unify hunify
      cases h
      exact .of_session rfl rfl
  | expect expected actual origin =>
      obtain ⟨⟨_, _⟩, hexpect, h⟩ := exists_of_bind_eq_ok h
      obtain ⟨_, _, _, rfl⟩ := Session.frame_expect hexpect
      cases h
      exact .of_session rfl rfl
  | requireTrait ty traitName origin =>
      obtain ⟨⟨_, _⟩, hrequire, h⟩ := exists_of_bind_eq_ok h
      obtain ⟨_, rfl⟩ := Session.frame_requireTrait hrequire
      cases h
      exact .of_session rfl rfl
  | dischargeTraits =>
      obtain ⟨_, hdischarge, h⟩ := exists_of_bind_eq_ok h
      obtain ⟨_, _, rfl⟩ := Session.frame_dischargeTraits hdischarge
      cases h
      exact .of_session rfl rfl
  | binary operator lhs rhs origin =>
      obtain ⟨⟨_, _⟩, hbinary, h⟩ := exists_of_bind_eq_ok h
      obtain ⟨_, _, _, _, rfl⟩ := Session.frame_binary hbinary
      cases h
      exact .of_session rfl rfl
  | call callee args origin =>
      obtain ⟨⟨_, _, _⟩, hcall, h⟩ := exists_of_bind_eq_ok h
      obtain ⟨_, _, _, _, rfl⟩ := Session.frame_call hcall
      cases h
      exact .of_session rfl rfl
  | lookupOrUnknown name origin span =>
      cases h
      obtain ⟨_, hsession⟩ := w.session.frame_lookupOrUnknown w.table name origin span
      have hfiled : (w.session.lookupOrUnknown w.table name origin span).2.filed =
          w.session.filed := by
        rw [hsession]
        rfl
      exact .of_session rfl hfiled
  | recordExpr expr inferred =>
      cases h
      exact .of_session rfl rfl
  | report report =>
      cases h
      exact .of_session rfl rfl
  | takeTrace =>
      cases h
      exact .of_session rfl rfl
  | declare name span ascription =>
      cases h
      exact .of_session rfl rfl
  | publish symbol =>
      obtain ⟨table, hdeclare, h⟩ := exists_of_bind_eq_ok h
      cases h
      obtain ⟨decl, hdecl, hget, hperm⟩ := SymbolTable.decls_declare hdeclare
      exact .publish hdecl hget rfl hperm
  | pushScope =>
      cases h
      exact .other rfl rfl (List.Sublist.refl _)
  | popScope =>
      rw [exec] at h
      split at h
      · cases h
        exact .other rfl rfl (List.Sublist.refl _)
      · rename_i scope outer hpop
        cases h
        exact .other rfl rfl (SymbolTable.decls_pop? hpop ▸ List.sublist_append_right _ _)
  | closeScope =>
      obtain ⟨⟨symbols, _, _, _⟩, hclose, h⟩ := exists_of_bind_eq_ok h
      cases h
      obtain ⟨scope, hpop, hfiled⟩ := Session.filed_closeScope hreach hclose
      exact .close hfiled (SymbolTable.decls_pop? hpop)

/-- A command makes no more copies of a declaration than it publishes. -/
theorem Handles.copies_le (h : Handles w w' command) (decl : DeclId) :
    w'.copies decl ≤ w.copies decl + command.published?.toList.count decl := by
  rw [copies, copies]
  cases h with
  | publish hdecl _ hfiled hopen =>
      rw [Command.published?, hdecl, Option.toList_some, hfiled, hopen.count_eq, List.count_cons,
        List.count_singleton]
      omega
  | close hfiled hopen =>
      rw [hfiled, hopen, List.count_append, List.count_append]
      omega
  | other _ hfiled hopen =>
      have hcount := hopen.count_le decl
      rw [hfiled]
      omega

/-! ## Whole runs -/

variable {start : Workspace} {commands : List Command}

theorem Course.reachable (h : Course start commands w) (hstart : start.session.Reachable) :
    w.session.Reachable := by
  induction h with
  | start => exact hstart
  | @exec _ w w' pool _ _ _ hexec ih =>
      have hstep : Session.Step w.session w'.session := .exec (w := { w with pool }) hexec
      exact ih.later (.single hstep)

theorem Course.handles (h : Course start commands w) (hstart : start.session.Reachable)
    {pool : VarPool} (hexec : { w with pool }.exec command = .ok (reply, w')) :
    Handles { w with pool } w' command :=
  handles_exec (h.reachable hstart) hexec

/-- Over a run there are no more copies of a declaration than were published. -/
theorem Course.copies_le (h : Course start commands w) (hstart : start.session.Reachable)
    (decl : DeclId) :
    w.copies decl ≤ start.copies decl + (commands.filterMap Command.published?).count decl := by
  induction h with
  | start => exact Nat.le_add_right _ _
  | @exec commands w w' pool command reply before hexec ih =>
      have hstep := (before.handles hstart hexec).copies_le decl
      have hsame : copies { w with pool } decl = w.copies decl := rfl
      have hpublished : [command].filterMap Command.published? = command.published?.toList := by
        cases h : command.published? <;> simp [h]
      rw [List.filterMap_append, List.count_append, hpublished]
      omega

/-- In the run a declaration was published that was filed at that time. -/
def Republishes (start : Workspace) (commands : List Command) (w : Workspace) (decl : DeclId) :
    Prop :=
  ∃ before symbol after middle, commands = before ++ .publish symbol :: after ∧
    Course start before middle ∧ Course middle (.publish symbol :: after) w ∧
    symbol.decl = some decl ∧ decl ∈ middle.session.filed ∧ middle.table.get? decl = none

theorem Republishes.exec {decl : DeclId} (h : Republishes start commands w decl) {pool : VarPool}
    (hexec : { w with pool }.exec command = .ok (reply, w')) :
    Republishes start (commands ++ [command]) w' decl := by
  obtain ⟨before, symbol, after, middle, rfl, hbefore, hafter, hpublished⟩ := h
  refine ⟨before, symbol, after ++ [command], middle, ?_, hbefore, hafter.exec hexec, hpublished⟩
  rw [List.append_assoc, List.cons_append]

/-- Unless a declaration was published when it was filed already, it has one copy at most. -/
theorem Course.copies_le_one (h : Course start commands w) (hstart : start.session.Reachable)
    {decl : DeclId} (hnone : start.copies decl = 0) :
    w.copies decl ≤ 1 ∨ Republishes start commands w decl := by
  induction h with
  | start => exact .inl (by omega)
  | @exec commands w w' pool command reply before hexec ih =>
      rcases ih with hone | hrepublishes
      · have hhandles := before.handles hstart hexec
        have hsame : copies { w with pool } decl = w.copies decl := rfl
        by_cases hpublished : command.published? = some decl
        · cases hhandles with
          | close => cases hpublished
          | other hcommand => cases hcommand.symm.trans hpublished
          | @publish symbol _ hdecl hnew hfiled hopen =>
              cases hdecl.symm.trans hpublished
              have hclosed := SymbolTable.notMem_decls_of_get?_eq_none hnew
              by_cases hmem : decl ∈ w.session.filed
              · exact .inr ⟨commands, symbol, [], w, rfl, before, .exec .start hexec, hdecl, hmem,
                  hnew⟩
              · refine .inl ?_
                rw [copies, hfiled, hopen.count_eq, List.count_cons_self,
                  List.count_eq_zero_of_not_mem hmem, List.count_eq_zero_of_not_mem hclosed]
        · have hstep := hhandles.copies_le decl
          have hother : command.published?.toList.count decl = 0 := by
            refine List.count_eq_zero_of_not_mem fun hmem => hpublished ?_
            exact Option.mem_toList.mp hmem
          exact .inl (by omega)
      · exact .inr (hrepublishes.exec hexec)

theorem exists_reachable_of_new {registry : Registry} {options : SessionOptions} {pool : VarPool}
    (h : Workspace.new registry options pool = .ok start) :
    start.session.Reachable ∧ ∀ decl, start.copies decl = 0 := by
  obtain ⟨⟨session, pool'⟩, hsession, hstart⟩ := exists_of_bind_eq_ok h
  obtain ⟨⟨supply, _⟩, _, hfields⟩ := exists_of_bind_eq_ok hsession
  cases hfields
  cases hstart
  exact ⟨⟨registry, options, pool, _, _, hsession, .refl⟩, fun _ => rfl⟩

theorem Course.run {more : List Command} {replies : List Reply} (h : Course start commands w)
    (hrun : w.run more = .ok (replies, w')) : Course start (commands ++ more) w' := by
  induction more generalizing commands w replies with
  | nil =>
      cases hrun
      rwa [List.append_nil]
  | cons command rest ih =>
      obtain ⟨⟨reply, middle⟩, hexec, hrun⟩ := exists_of_bind_eq_ok hrun
      obtain ⟨⟨others, last⟩, hrest, hrun⟩ := exists_of_bind_eq_ok hrun
      cases hrun
      have hstep : Course start (commands ++ [command]) middle := h.exec hexec
      have hcourse := ih hstep hrest
      rwa [List.append_assoc] at hcourse

/-- A declaration stands in the unit at most as often as it was published in the run.  If
it stands there twice then it was published, and accepted, at a time when it was filed
already and no open scope had it. -/
theorem resolved_again_only_if_republished {registry : Registry} {options : SessionOptions}
    {pool : VarPool} {unit : CheckedUnit} (hnew : Workspace.new registry options pool = .ok start)
    (hcourse : Course start commands w) (hfinish : w.session.finish = .ok (.ok unit))
    (decl : DeclId) :
    (unit.symbols.map ResolvedSymbol.decl).count decl ≤
      (commands.filterMap Command.published?).count decl ∧
    (1 < (unit.symbols.map ResolvedSymbol.decl).count decl →
      ∃ before symbol after middle, commands = before ++ .publish symbol :: after ∧
        Course start before middle ∧ Course middle (.publish symbol :: after) w ∧
        symbol.decl = some decl ∧ decl ∈ middle.session.filed ∧
        middle.table.get? decl = none) := by
  obtain ⟨hstart, hnone⟩ := exists_reachable_of_new hnew
  have hfiled : unit.symbols.map ResolvedSymbol.decl = w.session.filed := by
    rw [(hcourse.reachable hstart).symbols_of_finish hfinish]
    rfl
  have hcopies : w.session.filed.count decl ≤ w.copies decl := Nat.le_add_right _ _
  rw [hfiled]
  constructor
  · have hle := hcourse.copies_le hstart decl
    rw [hnone] at hle
    omega
  · intro htwice
    rcases hcourse.copies_le_one hstart (hnone decl) with hone | hrepublishes
    · omega
    · exact hrepublishes

/-- A symbol is published in an inner scope, which is closed, and then in the outer one. -/
theorem resolved_again_only_if_republished_in_outer_scope : ∃ (start w : Workspace)
    (symbol : Symbol) (unit : CheckedUnit),
    Course start [.pushScope, .publish symbol, .closeScope, .publish symbol, .closeScope] w ∧
    w.session.finish = .ok (.ok unit) ∧ unit.symbols.map ResolvedSymbol.decl = [3, 3] ∧
    ∃ before other after middle, [.pushScope, .publish symbol, .closeScope, .publish symbol,
        .closeScope] = before ++ .publish other :: after ∧
      Course start before middle ∧ 3 ∈ middle.session.filed := by
  have hrun : ∃ (start w : Workspace) (replies : List Reply) (symbol : Symbol)
      (unit : CheckedUnit), Workspace.new .builtin { varOffset := some 0 } ⟨0⟩ = .ok start ∧
      start.run [.pushScope, .publish symbol, .closeScope, .publish symbol, .closeScope] =
        .ok (replies, w) ∧
      w.session.finish = .ok (.ok unit) ∧ unit.symbols.map ResolvedSymbol.decl = [3, 3] :=
    ⟨_, _, _, ⟨some 3, "x", .synthetic, .ofTy .num, none⟩, _, rfl, rfl, rfl, rfl⟩
  obtain ⟨start, w, replies, symbol, unit, hnew, hrun, hfinish, hdecls⟩ := hrun
  have hcourse := Course.start.run hrun
  have htwice : 1 < (unit.symbols.map ResolvedSymbol.decl).count 3 := by
    rw [hdecls]
    decide
  obtain ⟨before, other, after, middle, hcommands, hbefore, -, -, hfiled, -⟩ :=
    (resolved_again_only_if_republished hnew hcourse hfinish 3).2 htwice
  exact ⟨start, w, symbol, unit, hcourse, hfinish, hdecls, before, other, after, middle,
    hcommands, hbefore, hfiled⟩

/-- A declaration is published, its scope is closed, and it is published once more; the run
ends with a unit that has the declaration twice. -/
theorem closed_declaration_published_again : ∃ (start w : Workspace) (replies : List Reply)
    (symbol : Symbol) (unit : CheckedUnit),
    Workspace.new .builtin { varOffset := some 0 } ⟨0⟩ = .ok start ∧ symbol.decl = some 0 ∧
    start.run [.declare "x" ⟨0, 0, 1⟩ none, .pushScope, .publish symbol, .closeScope,
      .publish symbol, .closeScope] = .ok (replies, w) ∧
    w.session.finish = .ok (.ok unit) ∧ ¬ (unit.symbols.map ResolvedSymbol.decl).Nodup :=
  ⟨_, _, _, .ofDeclaration ⟨0, "x", ⟨0, 0, 1⟩, none⟩ (.ofTy .num), _, rfl, rfl, rfl, rfl, by decide⟩

end Workspace

end TypeInference

/-
# Commands as sequences of acts

This module reads each operation once.  It says which acts the operation is made
of and where the types come from that it answers, as long as it has nothing to
report.  From this follows for commands, and so for all reachable sessions, what
was shown for acts.
-/

import TypeInference.Proofs.Session.Act
import TypeInference.Proofs.Session.Reachable

namespace TypeInference

/-- The types that a command hands in to be checked. -/
def Command.types : Command → List Ty
  | .unify expected actual | .expect expected actual _ => [expected, actual]
  | .requireTrait ty _ _ => [ty]
  | .binary _ lhs rhs _ => [lhs.ty, rhs.ty]
  | .call callee args _ => callee :: args
  | .recordExpr _ inferred => [inferred.ty]
  | .publish symbol => [symbol.ty]
  | _ => []

/-- The types of all symbols of a scope, hidden ones included. -/
def Scope.types (scope : Scope) : List Ty := scope.symbols.values.map Symbol.ty

/-- The types of all symbols in open scopes. -/
def SymbolTable.types (table : SymbolTable) : List Ty := table.scopes.flatMap Scope.types

/-- The types that stand in a result or in the error in its place. -/
def typesOf : Except TypeError (List Ty) → List Ty
  | .ok types => types
  | .error error => error.types

/-- The types that an answer holds. -/
def Reply.types : Reply → List Ty
  | .ty answer => [answer]
  | .inferred answer => [answer.ty]
  | .outcome answer => typesOf (answer.map fun _ => [])
  | .ascribed answer => typesOf (answer.map fun ty => [ty])
  | .symbol answer => [answer.ty]
  | .popped (some scope) => scope.types
  | .closed symbols => symbols.map ResolvedSymbol.ty
  | _ => []

theorem Scope.mem_types {scope : Scope} {decl : DeclId} {symbol : Symbol}
    (h : (decl, symbol) ∈ scope.symbols.entries) : symbol.ty ∈ scope.types :=
  List.mem_map_of_mem (List.mem_map_of_mem h)

theorem SymbolTable.mem_types_of_lookup {table : SymbolTable} {name : String} {symbol : Symbol}
    (h : table.lookup name = some symbol) : symbol.ty ∈ table.types := by
  obtain ⟨scope, hscope, hlookup⟩ := List.exists_of_findSome?_eq_some h
  obtain ⟨decl, _, hfind⟩ := Option.bind_eq_some_iff.mp hlookup
  exact List.mem_flatMap.mpr ⟨scope, hscope, Scope.mem_types (KeyMap.find?_eq_some_iff.mp hfind)⟩

theorem SymbolTable.mem_types_of_pop? {table outer : SymbolTable} {scope : Scope}
    (h : table.pop? = some (scope, outer)) {ty : Ty} (hty : ty ∈ scope.types) :
    ty ∈ table.types := by
  rw [pop?] at h
  split at h
  · cases h
  · rename_i hscopes
    cases h
    rw [types, hscopes, List.flatMap_cons]
    exact List.mem_append_left _ hty

theorem Ty.types_of_named_eq_error {name : String} {error : TypeError}
    (h : Ty.named name = .error error) : error.types = [] := by
  unfold Ty.named at h
  split at h
  · cases h
  · cases h
  · cases h
  · split at h
    · cases h
    · cases h
      rfl

/-- A property of handed-in types that holds as well of what operations build
from them. -/
structure Inherited (given : Ty → Prop) : Prop where
  named : ∀ {name : String} {ty : Ty}, Ty.named name = .ok ty → given ty
  literal : ∀ value, given (.ofLiteral value)
  var : ∀ v, given (.var v)
  func : ∀ {params : List Ty} {result : Ty}, (∀ param ∈ params, given param) → given result →
    given (.func params result)
  erase : ∀ {ty : Ty}, given ty → given ty.erase

namespace Inherited

variable {given : Ty → Prop}

theorem bool (h : Inherited given) : given .bool := by
  have hnamed : Ty.named "bool" = .ok .bool := rfl
  exact h.named hnamed

/-- A callee is unified with such a type. -/
theorem site (h : Inherited given) {args : List Ty} (hargs : ∀ arg ∈ args, given arg) (v : VarId) :
    given (.func (Ty.eraseAll args) (.var v)) := by
  refine h.func (fun param hparam => ?_) (h.var v)
  rw [Ty.eraseAll_eq_map] at hparam
  obtain ⟨arg, harg, rfl⟩ := List.mem_map.mp hparam
  exact h.erase (hargs arg harg)

mutual

theorem toTy (h : Inherited given) : (written : Ascription) → {supply supply' : VarSupply} →
    {pool pool' : VarPool} → {answer : Except TypeError Ty} →
    written.toTy supply pool = .ok (answer, supply', pool') →
    ∀ ty ∈ typesOf (answer.map fun ty => [ty]), given ty
  | .named name, _, _, _, _, answer, hanswer => by
      rw [Ascription.toTy, Except.ok.injEq, Prod.mk.injEq] at hanswer
      cases answer with
      | ok ty => exact List.forall_mem_singleton.mpr (h.named hanswer.1)
      | error error =>
          intro ty hty
          rw [Except.map, typesOf, Ty.types_of_named_eq_error hanswer.1] at hty
          cases hty
  | .hole, supply, _, pool, _, answer, hanswer => by
      rw [Ascription.toTy] at hanswer
      obtain ⟨⟨v, _⟩, _, hanswer⟩ := exists_of_bind_eq_ok hanswer
      cases hanswer
      exact List.forall_mem_singleton.mpr (h.var v)
  | .func params result, supply, _, pool, _, answer, hanswer => by
      rw [Ascription.toTy] at hanswer
      obtain ⟨⟨params', supply, pool⟩, hparams, hanswer⟩ := exists_of_bind_eq_ok hanswer
      cases params' with
      | error error =>
          cases hanswer
          exact h.toTys params hparams
      | ok params' =>
          obtain ⟨⟨result', supply, pool⟩, hresult, hanswer⟩ := exists_of_bind_eq_ok hanswer
          cases hanswer
          cases result' with
          | error error => exact h.toTy result hresult
          | ok result' =>
              have hgiven := h.toTy result hresult result' List.mem_cons_self
              exact List.forall_mem_singleton.mpr (h.func (h.toTys params hparams) hgiven)

theorem toTys (h : Inherited given) : (list : List Ascription) → {supply supply' : VarSupply} →
    {pool pool' : VarPool} → {answer : Except TypeError (List Ty)} →
    Ascription.toTys supply pool list = .ok (answer, supply', pool') →
    ∀ ty ∈ typesOf answer, given ty
  | [], _, _, _, _, answer, hanswer => by
      rw [Ascription.toTys] at hanswer
      cases hanswer
      exact fun _ hty => absurd hty List.not_mem_nil
  | first :: rest, supply, _, pool, _, answer, hanswer => by
      rw [Ascription.toTys] at hanswer
      obtain ⟨⟨first', supply, pool⟩, hfirst, hanswer⟩ := exists_of_bind_eq_ok hanswer
      cases first' with
      | error error =>
          cases hanswer
          exact h.toTy first hfirst
      | ok first' =>
          obtain ⟨⟨rest', supply, pool⟩, hrest, hanswer⟩ := exists_of_bind_eq_ok hanswer
          cases hanswer
          cases rest' with
          | error error => exact h.toTys rest hrest
          | ok rest' =>
              have hgiven := h.toTy first hfirst first' List.mem_cons_self
              exact List.forall_mem_cons.mpr ⟨hgiven, h.toTys rest hrest⟩

end

end Inherited

namespace Session

section Operations

variable {given : Ty → Prop} {s s' : Session} {origin : NodeId}

theorem acts_expect {expected actual ty : Ty} (hexpected : given expected) (hactual : given actual)
    (h : s.expect expected actual origin = .ok (ty, s')) :
    Acts given s s' ∧ (s'.reports = [] → s'.apply expected = .ok ty) := by
  obtain ⟨⟨outcome, t⟩, hunify, h⟩ := exists_of_bind_eq_ok h
  have hacts : Acts given s t := .single (.unify hexpected hactual hunify)
  cases outcome with
  | ok =>
      obtain ⟨applied, happly, h⟩ := exists_of_bind_eq_ok h
      cases h
      exact ⟨hacts, fun _ => happly⟩
  | error error =>
      cases h
      exact ⟨hacts.tail (.report t _), fun hnone => absurd hnone (reports_report_ne_nil t _)⟩

theorem acts_logicalType (hgiven : Inherited given) {lhs rhs : Ty} (hlhs : given lhs)
    (hrhs : given rhs) {ty : Option Ty} (h : s.logicalType lhs rhs origin = .ok (ty, s')) :
    Acts given s s' ∧ (s'.reports = [] → ty = some .bool) := by
  obtain ⟨⟨left, t⟩, hleft, h⟩ := exists_of_bind_eq_ok h
  obtain ⟨⟨right, u⟩, hright, h⟩ := exists_of_bind_eq_ok h
  cases h
  obtain ⟨hacts, hbool⟩ := acts_expect hgiven.bool hlhs hleft
  obtain ⟨hacts', hbool'⟩ := acts_expect hgiven.bool hrhs hright
  refine ⟨hacts.trans hacts', fun hnone => ?_⟩
  cases hbool' hnone
  cases hbool (hacts'.advances.reports_eq_nil hnone)
  rfl

theorem acts_traitType {operator : Operator} {traitName : String} {lhs rhs : Ty}
    (hlhs : given lhs) (hrhs : given rhs) {ty : Option Ty}
    (h : s.traitType operator traitName lhs rhs origin = .ok (ty, s')) :
    Acts given s s' ∧ (s'.reports = [] →
      ty = some .bool ∨ ∃ applied, s'.apply lhs = .ok applied ∧ ty = some applied.erase) := by
  obtain ⟨⟨agreed, t⟩, hunify, h⟩ := exists_of_bind_eq_ok h
  have hacts : Acts given s t := .single (.unify hlhs hrhs hunify)
  cases agreed with
  | error error =>
      cases h
      exact ⟨hacts.tail (.report t _), fun hnone => absurd hnone (reports_report_ne_nil t _)⟩
  | ok =>
      obtain ⟨⟨satisfied, u⟩, hrequire, h⟩ := exists_of_bind_eq_ok h
      have hacts' : Acts given s u := hacts.tail (.requireTrait hrequire)
      cases satisfied with
      | error error =>
          cases h
          exact ⟨hacts'.tail (.report u _), fun hnone => absurd hnone (reports_report_ne_nil u _)⟩
      | ok =>
          dsimp only at h
          split at h
          · cases h
            exact ⟨hacts', fun _ => .inl rfl⟩
          · obtain ⟨applied, happly, h⟩ := exists_of_bind_eq_ok h
            cases h
            exact ⟨hacts', fun _ => .inr ⟨applied, happly, rfl⟩⟩

theorem acts_binary (hgiven : Inherited given) {operator : Operator} {lhs rhs inferred : Inferred}
    (hlhs : given lhs.ty) (hrhs : given rhs.ty)
    (h : s.binary operator lhs rhs origin = .ok (inferred, s')) :
    Acts given s s' ∧ (s'.reports = [] → Made given s s' inferred.ty) := by
  obtain ⟨⟨ty, t⟩, htype, h⟩ := exists_of_bind_eq_ok h
  have hacts : Acts given s t ∧
      (t.reports = [] → ∃ answer, ty = some answer ∧ Made given s t answer) := by
    rw [operatorType] at htype
    split at htype
    · obtain ⟨hacts, hbool⟩ := acts_logicalType hgiven hlhs hrhs htype
      exact ⟨hacts, fun hnone => ⟨.bool, hbool hnone, .given hgiven.bool⟩⟩
    · obtain ⟨hacts, hanswer⟩ := acts_traitType hlhs hrhs htype
      refine ⟨hacts, fun hnone => ?_⟩
      rcases hanswer hnone with hbool | ⟨applied, happly, heq⟩
      · exact ⟨.bool, hbool, .given hgiven.bool⟩
      · exact ⟨_, heq, .erased (.applied hlhs happly)⟩
  obtain ⟨hacts, hanswer⟩ := hacts
  cases ty with
  | none =>
      cases h
      refine ⟨hacts, fun hnone => ?_⟩
      obtain ⟨_, heq, _⟩ := hanswer hnone
      cases heq
  | some ty =>
      dsimp only at h
      split at h
      · cases h
        exact ⟨hacts, fun _ => .given (hgiven.literal _)⟩
      · cases h
        refine ⟨hacts, fun hnone => ?_⟩
        obtain ⟨answer, heq, hmade⟩ := hanswer hnone
        cases heq
        exact hmade

theorem acts_call (hgiven : Inherited given) {pool pool' : VarPool} {callee ty : Ty}
    {args : List Ty} (hcallee : given callee) (hargs : ∀ arg ∈ args, given arg)
    (h : s.call pool callee args origin = .ok (ty, s', pool')) :
    Acts given s s' ∧ (s'.reports = [] → Made given s s' ty) := by
  obtain ⟨⟨v, t, drawn⟩, hfresh, h⟩ := exists_of_bind_eq_ok h
  obtain ⟨⟨_, supply, _⟩, _, hfresh⟩ := exists_of_bind_eq_ok hfresh
  cases hfresh
  obtain ⟨⟨outcome, u⟩, hunify, h⟩ := exists_of_bind_eq_ok h
  have hacts : Acts given s u :=
    .tail (.single (.draw s supply)) (.unify hcallee (hgiven.site hargs v) hunify)
  cases outcome with
  | ok =>
      obtain ⟨applied, happly, h⟩ := exists_of_bind_eq_ok h
      cases h
      exact ⟨hacts, fun _ => .applied (hgiven.var v) happly⟩
  | error error =>
      cases h
      exact ⟨hacts.tail (.report u _), fun hnone => absurd hnone (reports_report_ne_nil u _)⟩

theorem acts_reconcile (hgiven : Inherited given) {pool pool' : VarPool} {decl : DeclId}
    {symbol : Symbol} (hsymbol : given symbol.ty) {agreed : Bool}
    (h : s.reconcile pool decl symbol = .ok (agreed, s', pool')) :
    Acts given s s' ∧ (s'.reports = [] → agreed = true) := by
  rw [reconcile] at h
  split at h
  · cases h
    exact ⟨.refl, fun _ => rfl⟩
  · obtain ⟨⟨annotated, t, drawn⟩, hwritten, h⟩ := exists_of_bind_eq_ok h
    obtain ⟨⟨_, supply, _⟩, hty, hwritten⟩ := exists_of_bind_eq_ok hwritten
    cases hwritten
    have hdraw : Acts given s { s with supply } := .single (.draw s supply)
    cases annotated with
    | error error =>
        cases h
        exact ⟨hdraw.tail (.report _ _), fun hnone => absurd hnone (reports_report_ne_nil _ _)⟩
    | ok annotated =>
        obtain ⟨⟨outcome, u⟩, hunify, h⟩ := exists_of_bind_eq_ok h
        have hannotated : given annotated := hgiven.toTy _ hty annotated List.mem_cons_self
        have hacts : Acts given s u := hdraw.tail (.unify hannotated hsymbol hunify)
        cases outcome with
        | ok =>
            cases h
            exact ⟨hacts, fun _ => rfl⟩
        | error error =>
            cases h
            exact ⟨hacts.tail (.report u _), fun hnone => absurd hnone (reports_report_ne_nil u _)⟩

theorem acts_reconcileAll (hgiven : Inherited given) {pool pool' : VarPool}
    {entries : List (DeclId × Symbol)} (hentries : ∀ entry ∈ entries, given entry.2.ty)
    {failed : List DeclId} (h : s.reconcileAll pool entries = .ok (failed, s', pool')) :
    Acts given s s' ∧ (s'.reports = [] → failed = []) := by
  induction entries generalizing s pool failed with
  | nil =>
      cases h
      exact ⟨.refl, fun _ => rfl⟩
  | cons entry rest ih =>
      obtain ⟨decl, symbol⟩ := entry
      obtain ⟨hsymbol, hrest⟩ := List.forall_mem_cons.mp hentries
      rw [reconcileAll] at h
      obtain ⟨⟨agreed, t, _⟩, hfirst, h⟩ := exists_of_bind_eq_ok h
      obtain ⟨⟨others, u, _⟩, hothers, h⟩ := exists_of_bind_eq_ok h
      cases h
      obtain ⟨hacts, hagreed⟩ := acts_reconcile hgiven hsymbol hfirst
      obtain ⟨hacts', hfailed⟩ := ih hrest hothers
      refine ⟨hacts.trans hacts', fun hnone => ?_⟩
      rw [hagreed (hacts'.advances.reports_eq_nil hnone), hfailed hnone]
      rfl

theorem acts_report_poison {report : Report} {ty : Ty} (h : (s.report report).poison ty = .ok s') :
    Acts given s s' ∧ s'.reports ≠ [] := by
  have hreported := reports_report_ne_nil s report
  refine ⟨.tail (.single (.report s report)) (.poison hreported h), fun hnone => ?_⟩
  obtain ⟨_, rfl⟩ := frame_poison h
  exact hreported hnone

theorem acts_settleSymbol {failed : List DeclId} (hfailed : s.reports = [] → failed = [])
    {decl : DeclId} {symbol : Symbol} (hsymbol : given symbol.ty) {resolved : ResolvedSymbol}
    (h : s.settleSymbol failed decl symbol = .ok (resolved, s')) :
    Acts given s s' ∧ (s'.reports = [] → s' = s ∧ s.Settled given resolved) := by
  rw [settleSymbol] at h
  split at h
  · rename_i hcontains
    cases h
    refine ⟨.refl, fun hnone => ?_⟩
    rw [hfailed hnone] at hcontains
    cases hcontains
  · obtain ⟨answer, hanswer, h⟩ := exists_of_bind_eq_ok h
    obtain ⟨ty, happly, hanswer⟩ := exists_of_bind_eq_ok hanswer
    split at hanswer
    · rename_i hclosed
      cases hanswer
      cases h
      exact ⟨.refl, fun _ => ⟨rfl, symbol, decl, ty, hsymbol, happly, hclosed, rfl⟩⟩
    · cases hanswer
      obtain ⟨t, hpoison, h⟩ := exists_of_bind_eq_ok h
      cases h
      obtain ⟨hacts, hreported⟩ := acts_report_poison hpoison
      exact ⟨hacts, fun hnone => absurd hnone hreported⟩

theorem acts_settleSymbols {failed : List DeclId} (hfailed : s.reports = [] → failed = [])
    {entries : List (DeclId × Symbol)} (hentries : ∀ entry ∈ entries, given entry.2.ty)
    {symbols : List ResolvedSymbol}
    (h : s.settleSymbols failed entries = .ok (symbols, s')) :
    Acts given s s' ∧ (s'.reports = [] → s' = s ∧ ∀ symbol ∈ symbols, s.Settled given symbol) := by
  induction entries generalizing s symbols with
  | nil =>
      cases h
      exact ⟨.refl, fun _ => ⟨rfl, fun _ hsymbol => absurd hsymbol List.not_mem_nil⟩⟩
  | cons entry rest ih =>
      obtain ⟨decl, symbol⟩ := entry
      obtain ⟨hsymbol, hrest⟩ := List.forall_mem_cons.mp hentries
      rw [settleSymbols] at h
      obtain ⟨⟨first, t⟩, hfirst, h⟩ := exists_of_bind_eq_ok h
      obtain ⟨⟨others, u⟩, hothers, h⟩ := exists_of_bind_eq_ok h
      cases h
      obtain ⟨hacts, hsettled⟩ := acts_settleSymbol hfailed hsymbol hfirst
      have hfailed' : t.reports = [] → failed = [] := fun hnone =>
        hfailed (hacts.advances.reports_eq_nil hnone)
      obtain ⟨hacts', hsettled'⟩ := ih hfailed' hrest hothers
      refine ⟨hacts.trans hacts', fun hnone => ?_⟩
      obtain ⟨rfl, hfirst⟩ := hsettled (hacts'.advances.reports_eq_nil hnone)
      obtain ⟨rfl, hothers⟩ := hsettled' hnone
      exact ⟨rfl, List.forall_mem_cons.mpr ⟨hfirst, hothers⟩⟩

theorem acts_closeScope (hgiven : Inherited given) {pool pool' : VarPool}
    {table table' : SymbolTable} (htable : ∀ ty ∈ table.types, given ty)
    {symbols : List ResolvedSymbol}
    (h : s.closeScope pool table = .ok (symbols, table', s', pool')) :
    Acts given s s' ∧ (s'.reports = [] → ∀ symbol ∈ symbols, Made given s s' symbol.ty) := by
  rw [closeScope] at h
  split at h
  · cases h
  · rename_i scope outer hpop
    have hentries : ∀ entry ∈ scope.symbols.entries, given entry.2.ty := fun entry hentry =>
      htable _ (SymbolTable.mem_types_of_pop? hpop (Scope.mem_types hentry))
    obtain ⟨⟨_, _, _⟩, hsettle, h⟩ := exists_of_bind_eq_ok h
    cases h
    obtain ⟨⟨failed, t, _⟩, hreconcile, hsettle⟩ := exists_of_bind_eq_ok hsettle
    obtain ⟨u, hdischarge, hsettle⟩ := exists_of_bind_eq_ok hsettle
    obtain ⟨⟨symbols, w⟩, hsymbols, hsettle⟩ := exists_of_bind_eq_ok hsettle
    cases hsettle
    obtain ⟨hacts, hfailed⟩ := acts_reconcileAll hgiven hentries hreconcile
    have hacts' : Acts given s u := hacts.tail (.dischargeTraits hdischarge)
    have hfailed' : u.reports = [] → failed = [] := by
      obtain ⟨_, _, rfl⟩ := frame_dischargeTraits hdischarge
      exact fun hnone => hfailed (List.append_eq_nil_iff.mp hnone).1
    obtain ⟨hacts'', hsettled⟩ := acts_settleSymbols hfailed' hentries hsymbols
    have hfile : w.reports = [] → ∀ symbol ∈ symbols, w.Settled given symbol := by
      intro hnone
      obtain ⟨rfl, hall⟩ := hsettled hnone
      exact hall
    refine ⟨(hacts'.trans hacts'').tail (.file w symbols hfile), fun hnone resolved hresolved => ?_⟩
    obtain ⟨symbol, decl, ty, hty, happly, _, rfl⟩ := hfile hnone resolved hresolved
    exact .erased (.applied hty happly)

theorem acts_lookupOrUnknown {table : SymbolTable} (htable : ∀ ty ∈ table.types, given ty)
    {name : String} {span : Option Span} {symbol : Symbol}
    (h : s.lookupOrUnknown table name origin span = (symbol, s')) :
    Acts given s s' ∧ (s'.reports = [] → given symbol.ty) := by
  rw [lookupOrUnknown] at h
  split at h
  · rename_i hlookup
    cases h
    exact ⟨.refl, fun _ => htable _ (SymbolTable.mem_types_of_lookup hlookup)⟩
  · cases h
    exact ⟨.single (.report s _), fun hnone => absurd hnone (reports_report_ne_nil s _)⟩

theorem acts_settleObligation {obligation : Obligation}
    (h : s.settleObligation obligation = .ok s') : Acts given s s' := by
  obtain ⟨ty, _, h⟩ := exists_of_bind_eq_ok h
  split at h
  · cases h
    exact .refl
  · exact (acts_report_poison h).1

theorem acts_settleExprs {entries settled : List (ExprId × Inferred)}
    (h : s.settleExprs entries = .ok (settled, s')) : Acts given s s' := by
  induction entries generalizing s settled with
  | nil =>
      cases h
      exact .refl
  | cons entry rest ih =>
      obtain ⟨expr, inferred⟩ := entry
      rw [settleExprs] at h
      obtain ⟨ty, _, h⟩ := exists_of_bind_eq_ok h
      split at h
      · obtain ⟨⟨others, t⟩, hothers, h⟩ := exists_of_bind_eq_ok h
        cases h
        exact ih hothers
      · obtain ⟨t, hopen, h⟩ := exists_of_bind_eq_ok h
        exact (acts_report_poison hopen).1.trans (ih h)

end Operations

/-- What a command records, before it does anything else. -/
def recordedBy (s : Session) : Command → Session
  | .recordExpr expr inferred => s.recordExpr expr inferred
  | _ => s

section RecordedBy

variable (s : Session) (command : Command)

@[simp] theorem subst_recordedBy : (s.recordedBy command).subst = s.subst := by
  cases command <;> rfl

@[simp] theorem registry_recordedBy : (s.recordedBy command).registry = s.registry := by
  cases command <;> rfl

@[simp] theorem reports_recordedBy : (s.recordedBy command).reports = s.reports := by
  cases command <;> rfl

@[simp] theorem obligations_recordedBy : (s.recordedBy command).obligations = s.obligations := by
  cases command <;> rfl

end RecordedBy

end Session

/-! ## Commands -/

/-- Every command is made of acts, after it has recorded what it is to record.
What it answers without a report is made of what it was given. -/
theorem Workspace.acts_exec {given : Ty → Prop} (hgiven : Inherited given) {w w' : Workspace}
    {command : Command} {reply : Reply} (htypes : ∀ ty ∈ command.types, given ty)
    (htable : ∀ ty ∈ w.table.types, given ty) (h : w.exec command = .ok (reply, w')) :
    Session.Acts given (w.session.recordedBy command) w'.session ∧
    (w'.session.reports = [] → ∀ ty ∈ reply.types, Session.Made given w.session w'.session ty) := by
  have hnothing {t : Session} : t.reports = [] →
      ∀ ty ∈ ([] : List Ty), Session.Made given w.session t ty :=
    fun _ _ hty => absurd hty List.not_mem_nil
  have hone {t : Session} {answer : Ty}
      (hanswer : t.reports = [] → Session.Made given w.session t answer) :
      t.reports = [] → ∀ ty ∈ [answer], Session.Made given w.session t ty :=
    fun hnone ty hty => List.mem_singleton.mp hty ▸ hanswer hnone
  cases command with
  | freshVars count =>
      obtain ⟨⟨_, _, _⟩, hdraw, h⟩ := exists_of_bind_eq_ok h
      obtain ⟨⟨_, supply, _⟩, _, hdraw⟩ := exists_of_bind_eq_ok hdraw
      cases hdraw
      cases h
      exact ⟨.single (.draw _ supply), hnothing⟩
  | freshType =>
      obtain ⟨⟨_, _, _⟩, hdraw, h⟩ := exists_of_bind_eq_ok h
      obtain ⟨⟨_, supply, _⟩, _, hdraw⟩ := exists_of_bind_eq_ok hdraw
      cases hdraw
      cases h
      exact ⟨.single (.draw _ supply), hone fun _ => .given (hgiven.var _)⟩
  | unify expected actual =>
      obtain ⟨⟨outcome, _⟩, hunify, h⟩ := exists_of_bind_eq_ok h
      cases h
      have hexpected := htypes expected List.mem_cons_self
      have hactual := htypes actual (List.mem_cons_of_mem _ List.mem_cons_self)
      refine ⟨.single (.unify hexpected hactual hunify), ?_⟩
      cases outcome with
      | ok => exact hnothing
      | error error => exact fun _ ty hty => .clashing hexpected hactual hunify hty
  | expect expected actual origin =>
      obtain ⟨⟨_, _⟩, hexpect, h⟩ := exists_of_bind_eq_ok h
      cases h
      have hexpected := htypes expected List.mem_cons_self
      have hactual := htypes actual (List.mem_cons_of_mem _ List.mem_cons_self)
      obtain ⟨hacts, hanswer⟩ := Session.acts_expect hexpected hactual hexpect
      exact ⟨hacts, hone fun hnone => .applied hexpected (hanswer hnone)⟩
  | requireTrait ty traitName origin =>
      obtain ⟨⟨outcome, _⟩, hrequire, h⟩ := exists_of_bind_eq_ok h
      cases h
      refine ⟨.single (.requireTrait hrequire), ?_⟩
      cases outcome with
      | ok => exact hnothing
      | error error =>
          exact fun _ answer hanswer => .lacking (htypes ty List.mem_cons_self) hrequire hanswer
  | dischargeTraits =>
      obtain ⟨_, hdischarge, h⟩ := exists_of_bind_eq_ok h
      cases h
      exact ⟨.single (.dischargeTraits hdischarge), hnothing⟩
  | binary operator lhs rhs origin =>
      obtain ⟨⟨_, _⟩, hbinary, h⟩ := exists_of_bind_eq_ok h
      cases h
      have hlhs := htypes lhs.ty List.mem_cons_self
      have hrhs := htypes rhs.ty (List.mem_cons_of_mem _ List.mem_cons_self)
      obtain ⟨hacts, hanswer⟩ := Session.acts_binary hgiven hlhs hrhs hbinary
      exact ⟨hacts, hone hanswer⟩
  | call callee args origin =>
      obtain ⟨⟨_, _, _⟩, hcall, h⟩ := exists_of_bind_eq_ok h
      cases h
      obtain ⟨hcallee, hargs⟩ := List.forall_mem_cons.mp htypes
      obtain ⟨hacts, hanswer⟩ := Session.acts_call hgiven hcallee hargs hcall
      exact ⟨hacts, hone hanswer⟩
  | resolveAscription written =>
      obtain ⟨⟨_, _, _⟩, hwritten, h⟩ := exists_of_bind_eq_ok h
      obtain ⟨⟨_, supply, _⟩, hty, hwritten⟩ := exists_of_bind_eq_ok hwritten
      cases hwritten
      cases h
      exact ⟨.single (.draw _ supply), fun _ ty hmem => .given (hgiven.toTy written hty ty hmem)⟩
  | recordExpr expr inferred =>
      cases h
      exact ⟨.refl, hnothing⟩
  | report report =>
      cases h
      exact ⟨.single (.report _ report), hnothing⟩
  | takeTrace =>
      cases h
      exact ⟨.single (.retrace _ _), hnothing⟩
  | declare name span ascription =>
      cases h
      exact ⟨.refl, hnothing⟩
  | publish symbol =>
      obtain ⟨table, _, h⟩ := exists_of_bind_eq_ok h
      cases h
      exact ⟨.refl, hone fun _ => .given (htypes symbol.ty List.mem_cons_self)⟩
  | lookupOrUnknown name origin span =>
      cases h
      have hlookup : w.session.lookupOrUnknown w.table name origin span = (_, _) := rfl
      obtain ⟨hacts, hanswer⟩ := Session.acts_lookupOrUnknown htable hlookup
      exact ⟨hacts, hone fun hnone => .given (hanswer hnone)⟩
  | pushScope =>
      cases h
      exact ⟨.refl, hnothing⟩
  | popScope =>
      rw [exec] at h
      split at h
      · cases h
        exact ⟨.refl, hnothing⟩
      · rename_i hpop
        cases h
        exact ⟨.refl, fun _ ty hty => .given (htable ty (SymbolTable.mem_types_of_pop? hpop hty))⟩
  | closeScope =>
      obtain ⟨⟨_, _, _, _⟩, hclose, h⟩ := exists_of_bind_eq_ok h
      cases h
      obtain ⟨hacts, hanswer⟩ := Session.acts_closeScope hgiven htable hclose
      refine ⟨hacts, fun hnone ty hty => ?_⟩
      obtain ⟨symbol, hsymbol, rfl⟩ := List.mem_map.mp hty
      exact hanswer hnone symbol hsymbol

theorem inherited_true : Inherited fun _ => True where
  named _ := trivial
  literal _ := trivial
  var _ := trivial
  func _ _ := trivial
  erase _ := trivial

namespace Session

/-- A command is made of acts whatever types it is given. -/
theorem acts_of_exec {w w' : Workspace} {command : Command} {reply : Reply}
    (h : w.exec command = .ok (reply, w')) :
    Acts (fun _ => True) (w.session.recordedBy command) w'.session :=
  (Workspace.acts_exec inherited_true (fun _ _ => trivial) (fun _ _ => trivial) h).1

/-- A step drops the obligations, or it is made of acts after something was recorded. -/
theorem Step.acts {s s' : Session} (h : Step s s') :
    s' = { s with obligations := [] } ∨
      ∃ command, Acts (fun _ => True) (s.recordedBy command) s' := by
  cases h with
  | @exec w w' command reply h => exact .inr ⟨command, acts_of_exec h⟩
  | dropObligations => exact .inl rfl
  | settleObligation h => exact .inr ⟨.dischargeTraits, acts_settleObligation h⟩
  | settleExprs h => exact .inr ⟨.dischargeTraits, acts_settleExprs h⟩

theorem Step.waits {s s' : Session} (h : Step s s') (hs : s.subst.WellFormed) (hw : s.Waits) :
    s'.Waits := by
  rcases h.acts with rfl | ⟨command, hacts⟩
  · exact fun _ ho => absurd ho List.not_mem_nil
  · apply hacts.waits
    · rwa [subst_recordedBy]
    · rwa [Waits, obligations_recordedBy, registry_recordedBy]

/-- In every reachable session obligations wait for variables and registered traits. -/
theorem Reachable.waits {s : Session} (h : s.Reachable) : s.Waits := by
  refine h.holds (fun hnew => ?_) fun hreach hstep hw => hstep.waits hreach.wellFormed hw
  obtain ⟨supply, _, h⟩ := exists_of_bind_eq_ok hnew
  cases h
  exact fun _ ho => absurd ho List.not_mem_nil

end Session

/-- One operation on a session, together with what surrounds the session then. -/
structure Call where
  declarations : Declarations
  table : SymbolTable
  pool : VarPool
  command : Command

/-- The types that are handed in with a call, in the command or in the table. -/
def Call.types (call : Call) : List Ty := call.command.types ++ call.table.types

namespace Session

/-- Carry out one call. -/
def exec (s : Session) (call : Call) : Except Fault (Reply × Session) := do
  let (reply, w) ← Workspace.exec ⟨s, call.declarations, call.table, call.pool⟩ call.command
  .ok (reply, w.session)

variable {s s' : Session} {call : Call} {reply : Reply}

theorem step_of_exec (h : s.exec call = .ok (reply, s')) : Step s s' := by
  obtain ⟨⟨_, w⟩, hexec, h⟩ := exists_of_bind_eq_ok h
  cases h
  exact .exec hexec

theorem acts_exec {given : Ty → Prop} (hgiven : Inherited given)
    (htypes : ∀ ty ∈ call.types, given ty) (h : s.exec call = .ok (reply, s')) :
    Acts given (s.recordedBy call.command) s' ∧
    (s'.reports = [] → ∀ ty ∈ reply.types, Made given s s' ty) := by
  obtain ⟨⟨_, w⟩, hexec, h⟩ := exists_of_bind_eq_ok h
  cases h
  obtain ⟨hcommand, htable⟩ := List.forall_mem_append.mp htypes
  exact Workspace.acts_exec hgiven hcommand htable hexec

theorem acts_of_call (h : s.exec call = .ok (reply, s')) :
    Acts (fun _ => True) (s.recordedBy call.command) s' :=
  (acts_exec inherited_true (fun _ _ => trivial) h).1

theorem registry_exec (h : s.exec call = .ok (reply, s')) : s'.registry = s.registry := by
  rw [(acts_of_call h).advances.registry, registry_recordedBy]

theorem reports_exec (h : s.exec call = .ok (reply, s')) : s.reports <+: s'.reports := by
  rw [← reports_recordedBy s call.command]
  exact (acts_of_call h).advances.reports

end Session

end TypeInference

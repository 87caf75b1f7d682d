/-
# What operations do to the substitution

Every operation of a session, started on a well-formed substitution, either
returns or stops because its caller misused it; and whatever it returns, the
substitution has only grown.  `Delivers` states both at once, so that each
operation has one specification and a longer operation follows from its parts.

Unification gets a finer account beside it.  It is the one operation that binds
and then takes back, and its account says which moves it made and that a failure
leaves the substitution it started from.
-/

import TypeInference.Proofs.Unify.Bound
import TypeInference.Session.Finish
import TypeInference.Workspace

namespace TypeInference

/-- Faults that no caller can bring about on a well-formed substitution. -/
def Fault.isInternal : Fault → Bool
  | .alreadyBound .. | .cyclicChain _ | .unboundedUnification => true
  | _ => false

/-- A result with a given property, or a fault that the caller has to answer for. -/
inductive Delivers {α : Type} (post : α → Prop) : Except Fault α → Prop
  | ok {value : α} (h : post value) : Delivers post (.ok value)
  | error {fault : Fault} (h : fault.isInternal = false) : Delivers post (.error fault)

namespace Delivers

variable {α β : Type} {pre : α → Prop} {post : β → Prop}

theorem bind {value : Except Fault α} {next : α → Except Fault β} (h : Delivers pre value)
    (hnext : ∀ a, pre a → Delivers post (next a)) : Delivers post (value >>= next) := by
  cases h with
  | ok h => exact hnext _ h
  | error h => exact .error h

theorem mono {post' : β → Prop} {value : Except Fault β} (h : Delivers post value)
    (himp : ∀ b, post b → post' b) : Delivers post' value := by
  cases h with
  | ok h => exact .ok (himp _ h)
  | error h => exact .error h

theorem of_eq_ok {value : Except Fault β} {b : β} (h : Delivers post value)
    (hvalue : value = .ok b) : post b := by
  subst hvalue
  cases h with
  | ok h => exact h

theorem of_eq_error {value : Except Fault β} {fault : Fault} (h : Delivers post value)
    (hvalue : value = .error fault) : fault.isInternal = false := by
  subst hvalue
  cases h with
  | error h => exact h

/-- A loop keeps what each round keeps. -/
theorem foldlM {step : β → α → Except Fault β} (list : List α) {start : β} (h : post start)
    (hstep : ∀ b a, post b → Delivers post (step b a)) :
    Delivers post (list.foldlM step start) := by
  induction list generalizing start with
  | nil => exact .ok h
  | cons a rest ih =>
      rw [List.foldlM_cons]
      exact (hstep start a h).bind fun b hb => ih hb

end Delivers

/-- Poisoning binds each variable of a list once. -/
theorem Subst.exists_foldlM_bind_error {s : Subst} {vars : List VarId} (hnodup : vars.Nodup)
    (hunbound : ∀ v ∈ vars, s.lookup v = none) :
    ∃ t, vars.foldlM (fun subst v => subst.bind v .error) s = .ok t ∧ s.Grows t := by
  induction vars generalizing s with
  | nil => exact ⟨s, rfl, .refl⟩
  | cons v rest ih =>
      obtain ⟨hv, hnodup⟩ := List.nodup_cons.mp hnodup
      have hunboundV := hunbound v List.mem_cons_self
      have hadmits : s.Admits v .error := ⟨hunboundV, rfl, fun _ hw => by cases hw⟩
      have hrest : ∀ w ∈ rest, (s.extend v .error).lookup w = none := by
        intro w hw
        have hne : w ≠ v := fun heq => hv (heq ▸ hw)
        rw [lookup_extend_of_ne s hne]
        exact hunbound w (List.mem_cons_of_mem _ hw)
      obtain ⟨t, hbind, hgrows⟩ := ih hnodup hrest
      refine ⟨t, ?_, (Grows.single hadmits).trans hgrows⟩
      rw [List.foldlM_cons, bind_of_lookup_eq_none hunboundV]
      exact hbind

theorem Subst.lookup_of_bind_error {s t : Subst} {w : VarId} (h : s.bind w .error = .ok t)
    (v : VarId) :
    t.lookup v = if v = w ∧ s.lookup v = none then some .error else s.lookup v := by
  rw [bind] at h
  split at h
  · split at h
    · cases h
      grind
    · cases h
  · cases h
    by_cases hv : v = w
    · simp_all
    · rw [lookup_extend_of_ne s hv, if_neg fun hopen => hv hopen.1]

/-- Poisoning binds the variables of a list that were open, and no others. -/
theorem Subst.lookup_of_foldlM_bind_error {s t : Subst} {vars : List VarId}
    (h : vars.foldlM (fun subst v => subst.bind v .error) s = .ok t) (v : VarId) :
    t.lookup v = if v ∈ vars ∧ s.lookup v = none then some .error else s.lookup v := by
  induction vars generalizing s with
  | nil =>
      cases h
      simp
  | cons w rest ih =>
      rw [List.foldlM_cons] at h
      obtain ⟨u, hbind, h⟩ := exists_of_bind_eq_ok h
      rw [ih h, lookup_of_bind_error hbind]
      grind

theorem Registry.delivers_satisfies (registry : Registry) (ty : Ty) (traitName : String) :
    Delivers (fun _ => True) (registry.satisfies ty traitName) := by
  rw [satisfies]
  split
  · exact .ok trivial
  · exact .error rfl

theorem VarPool.delivers_claim (pool : VarPool) : Delivers (fun _ => True) pool.claim := by
  rw [claim]
  split
  · exact .ok trivial
  · exact .error rfl

namespace VarSupply

theorem delivers_draw (supply : VarSupply) (pool : VarPool) :
    Delivers (fun _ => True) (supply.draw pool) := by
  rw [draw]
  by_cases hempty : supply.next = supply.stop
  · rw [if_pos hempty]
    exact pool.delivers_claim.bind fun _ _ => .ok trivial
  · rw [if_neg hempty]
    exact .ok trivial

theorem delivers_drawMany (supply : VarSupply) (pool : VarPool) (count : Nat) :
    Delivers (fun _ => True) (supply.drawMany pool count) := by
  induction count generalizing supply pool with
  | zero => exact .ok trivial
  | succ count ih =>
      exact (supply.delivers_draw pool).bind fun _ _ => (ih _ _).bind fun _ _ => .ok trivial

end VarSupply

namespace Ascription

mutual

theorem delivers_toTy : (written : Ascription) → (supply : VarSupply) → (pool : VarPool) →
    Delivers (fun _ => True) (written.toTy supply pool)
  | .named _, _, _ => by
      rw [toTy]
      exact .ok trivial
  | .hole, supply, pool => by
      rw [toTy]
      exact (supply.delivers_draw pool).bind fun _ _ => .ok trivial
  | .func params result, supply, pool => by
      rw [toTy]
      apply (delivers_toTys params supply pool).bind
      rintro ⟨params' | params', supply, pool⟩ _
      · exact .ok trivial
      · exact (delivers_toTy result supply pool).bind fun _ _ => .ok trivial

theorem delivers_toTys : (list : List Ascription) → (supply : VarSupply) → (pool : VarPool) →
    Delivers (fun _ => True) (toTys supply pool list)
  | [], _, _ => by
      rw [toTys]
      exact .ok trivial
  | first :: rest, supply, pool => by
      rw [toTys]
      apply (delivers_toTy first supply pool).bind
      rintro ⟨first' | first', supply, pool⟩ _
      · exact .ok trivial
      · exact (delivers_toTys rest supply pool).bind fun _ _ => .ok trivial

end

end Ascription

namespace Session

variable {s : Session}

/-- The state in which a session starts to unify. -/
def start (s : Session) : Unify.Progress := ⟨s.subst, []⟩

/-- A unification disposes of its pair, or it is stuck at some pair and then
everything but the trace is as before. -/
theorem unify_cases (hs : s.subst.Acyclic) (a b : Ty) :
    (∃ p, Unify.Moves (s.start, [(a, b)]) (p, []) ∧
      s.unify a b = .ok (.ok (), { s with subst := p.subst }.recordEvents p.log.reverse)) ∨
    (∃ error q x y more p, Unify.Moves (s.start, [(a, b)]) (q, (x, y) :: more) ∧
      Unify.Stuck q x y error p ∧
      s.unify a b = .ok (.error error, s.recordEvents
        (p.log.reverse ++ [.rolledBack a b (p.subst.size - s.subst.size)]))) := by
  have hfollows := Unify.solve_follows (Unify.stepBound s.subst a b) (p := s.start) hs a b
  have hrun : Unify.run s.subst a b = Unify.solve (Unify.stepBound s.subst a b) s.start a b := rfl
  rw [← hrun] at hfollows
  rw [unify]
  cases hattempt : Unify.run s.subst a b with
  | solved p =>
      rw [hattempt] at hfollows
      exact .inl ⟨p, hfollows [], rfl⟩
  | failed error p =>
      rw [hattempt] at hfollows
      obtain ⟨q, x, y, more, hmoves, hstuck⟩ := hfollows []
      have hgrows : s.subst.Grows p.subst := hstuck.subst_eq ▸ hmoves.grows
      refine .inr ⟨error, q, x, y, more, p, hmoves, hstuck, ?_⟩
      simp only [hgrows.rollback_snapshot]
  | broken fault => exact absurd hattempt (Unify.run_ne_broken hs a b fault)

theorem delivers_unify (hs : s.subst.Acyclic) (a b : Ty) :
    Delivers (fun result => s.subst.Grows result.2.subst) (s.unify a b) := by
  rcases unify_cases hs a b with ⟨p, hmoves, heq⟩ | ⟨_, _, _, _, _, _, _, _, heq⟩
  · rw [heq]
    exact .ok hmoves.grows
  · rw [heq]
    exact .ok .refl

theorem delivers_freshVar (s : Session) (pool : VarPool) :
    Delivers (fun result => result.2.1.subst = s.subst) (s.freshVar pool) :=
  (s.supply.delivers_draw pool).bind fun _ _ => .ok rfl

theorem delivers_freshVars (s : Session) (pool : VarPool) (count : Nat) :
    Delivers (fun result => result.2.1.subst = s.subst) (s.freshVars pool count) :=
  (s.supply.delivers_drawMany pool count).bind fun _ _ => .ok rfl

theorem delivers_resolveAscription (s : Session) (pool : VarPool) (written : Ascription) :
    Delivers (fun result => result.2.1.subst = s.subst) (s.resolveAscription pool written) :=
  (written.delivers_toTy s.supply pool).bind fun _ _ => .ok rfl

theorem delivers_apply (hs : s.subst.Acyclic) (ty : Ty) :
    Delivers (fun applied => applied = ty.instantiate s.subst.image) (s.apply ty) := by
  rw [apply, hs.apply_eq_ok]
  exact .ok rfl

theorem delivers_poison (hs : s.subst.Acyclic) (ty : Ty) :
    Delivers (fun result => s.subst.Grows result.subst) (s.poison ty) := by
  apply (delivers_apply hs ty).bind
  rintro applied rfl
  obtain ⟨t, hbind, hgrows⟩ := Subst.exists_foldlM_bind_error
    (nodup_ascendingDistinct (ty.instantiate s.subst.image).varOccurrences)
    fun v hv => hs.lookup_eq_none_of_occurs (Ty.mem_freeVars.mp hv)
  rw [Ty.freeVars, hbind]
  exact .ok hgrows

theorem delivers_requireTrait (hs : s.subst.Acyclic) (ty : Ty) (traitName : String)
    (origin : NodeId) :
    Delivers (fun result => result.2.subst = s.subst) (s.requireTrait ty traitName origin) := by
  have hsubject : Delivers (fun _ => True) (s.traitSubject ty) := by
    obtain ⟨head, hhead, _⟩ := hs.exists_resolve_eq_ok ty
    obtain ⟨subject, hsubject, _⟩ := hs.exists_resolve_eq_ok head.unwrap
    rw [traitSubject, hhead]
    show Delivers _ (s.subst.resolve head.unwrap)
    rw [hsubject]
    exact .ok trivial
  rw [requireTrait]
  split
  · apply hsubject.bind
    intro subject _
    split
    · exact .ok rfl
    · exact .ok rfl
    · exact .ok rfl
    · apply (s.registry.delivers_satisfies _ traitName).bind
      intro answer _
      split
      · exact .ok rfl
      · exact (delivers_apply hs _).bind fun _ _ => .ok rfl
  · exact .error rfl

theorem delivers_discharge (hs : s.subst.Acyclic) (obligation : Obligation) :
    Delivers (fun result => result.subst = s.subst) (s.discharge obligation) := by
  apply (delivers_requireTrait hs _ _ _).bind
  intro ⟨outcome, t⟩ hsame
  cases outcome with
  | ok => exact .ok hsame
  | error error => exact .ok hsame

theorem delivers_dischargeTraits (hs : s.subst.Acyclic) :
    Delivers (fun result => result.subst = s.subst) s.dischargeTraits :=
  Delivers.foldlM _ rfl fun t obligation hsame => by
    have ht : t.subst.Acyclic := hsame.symm ▸ hs
    exact (delivers_discharge ht obligation).mono fun u hu => hu.trans hsame

theorem delivers_expect (hs : s.subst.Acyclic) (expected actual : Ty) (origin : NodeId) :
    Delivers (fun result => s.subst.Grows result.2.subst) (s.expect expected actual origin) := by
  apply (delivers_unify hs expected actual).bind
  intro ⟨outcome, t⟩ hgrows
  cases outcome with
  | ok => exact (delivers_apply (hgrows.acyclic hs) expected).bind fun _ _ => .ok hgrows
  | error error => exact .ok hgrows

theorem delivers_logicalType (hs : s.subst.Acyclic) (lhs rhs : Ty) (origin : NodeId) :
    Delivers (fun result => s.subst.Grows result.2.subst) (s.logicalType lhs rhs origin) := by
  apply (delivers_expect hs .bool lhs origin).bind
  intro ⟨left, t⟩ hleft
  apply (delivers_expect (hleft.acyclic hs) .bool rhs origin).bind
  intro ⟨right, u⟩ hright
  exact .ok (hleft.trans hright)

theorem delivers_traitType (hs : s.subst.Acyclic) (operator : Operator) (traitName : String)
    (lhs rhs : Ty) (origin : NodeId) :
    Delivers (fun result => s.subst.Grows result.2.subst)
      (s.traitType operator traitName lhs rhs origin) := by
  apply (delivers_unify hs lhs rhs).bind
  intro ⟨agreed, t⟩ hgrows
  cases agreed with
  | error error => exact .ok hgrows
  | ok =>
      have ht := hgrows.acyclic hs
      apply (delivers_requireTrait ht lhs traitName origin).bind
      intro ⟨satisfied, u⟩ hsame
      have hgrown : s.subst.Grows u.subst := hsame.symm ▸ hgrows
      cases satisfied with
      | error error => exact .ok hgrown
      | ok =>
          show Delivers _ (if operator.isComparison then _ else _)
          split
          · exact .ok hgrown
          · exact (delivers_apply (hgrown.acyclic hs) lhs).bind fun _ _ => .ok hgrown

theorem delivers_binary (hs : s.subst.Acyclic) (operator : Operator) (lhs rhs : Inferred)
    (origin : NodeId) :
    Delivers (fun result => s.subst.Grows result.2.subst) (s.binary operator lhs rhs origin) := by
  have htype : Delivers (fun result => s.subst.Grows result.2.subst)
      (s.operatorType operator lhs.ty rhs.ty origin) := by
    rw [operatorType]
    split
    · exact delivers_logicalType hs _ _ _
    · exact delivers_traitType hs _ _ _ _ _
  apply htype.bind
  intro ⟨ty, t⟩ hgrows
  cases ty with
  | none => exact .ok hgrows
  | some ty =>
      dsimp only
      split
      · exact .ok hgrows
      · exact .ok hgrows

theorem delivers_call (hs : s.subst.Acyclic) (pool : VarPool) (callee : Ty) (args : List Ty)
    (origin : NodeId) :
    Delivers (fun result => s.subst.Grows result.2.1.subst) (s.call pool callee args origin) := by
  apply (s.delivers_freshVar pool).bind
  intro ⟨v, t, pool⟩ hsame
  have hsame : t.subst = s.subst := hsame
  apply (delivers_unify (s := t) (hsame.symm ▸ hs) callee _).bind
  intro ⟨outcome, u⟩ hgrows
  have hgrown : s.subst.Grows u.subst := hsame ▸ hgrows
  cases outcome with
  | ok => exact (delivers_apply (hgrown.acyclic hs) (.var v)).bind fun _ _ => .ok hgrown
  | error error => exact .ok hgrown

theorem delivers_reconcile (hs : s.subst.Acyclic) (pool : VarPool) (decl : DeclId)
    (symbol : Symbol) :
    Delivers (fun result => s.subst.Grows result.2.1.subst) (s.reconcile pool decl symbol) := by
  rw [reconcile]
  split
  · exact .ok .refl
  · rename_i written _
    apply (s.delivers_resolveAscription pool written.value).bind
    intro ⟨annotated, t, pool⟩ hsame
    have hsame : t.subst = s.subst := hsame
    cases annotated with
    | error error => exact .ok (hsame.symm ▸ .refl)
    | ok annotated =>
        apply (delivers_unify (s := t) (hsame.symm ▸ hs) annotated symbol.ty).bind
        intro ⟨outcome, u⟩ hgrows
        have hgrown : s.subst.Grows u.subst := hsame ▸ hgrows
        cases outcome with
        | ok => exact .ok hgrown
        | error error => exact .ok hgrown

theorem delivers_reconcileAll (hs : s.subst.Acyclic) (pool : VarPool)
    (entries : List (DeclId × Symbol)) :
    Delivers (fun result => s.subst.Grows result.2.1.subst) (s.reconcileAll pool entries) := by
  induction entries generalizing s pool with
  | nil => exact .ok .refl
  | cons entry rest ih =>
      obtain ⟨decl, symbol⟩ := entry
      rw [reconcileAll]
      apply (delivers_reconcile hs pool decl symbol).bind
      intro ⟨agreed, t, pool⟩ hgrows
      apply (ih (s := t) (hgrows.acyclic hs) pool).bind
      intro ⟨failed, u, pool⟩ hlater
      exact .ok (hgrows.trans hlater)

theorem delivers_settleSymbol (hs : s.subst.Acyclic) (failed : List DeclId) (decl : DeclId)
    (symbol : Symbol) :
    Delivers (fun result => s.subst.Grows result.2.subst)
      (s.settleSymbol failed decl symbol) := by
  rw [settleSymbol]
  split
  · exact .ok .refl
  · have hresolve : Delivers (fun _ => True) (s.resolveSymbol symbol) := by
      apply (delivers_apply hs symbol.ty).bind
      intro ty _
      split
      · exact .ok trivial
      · exact .ok trivial
    apply hresolve.bind
    intro resolved _
    cases resolved with
    | ok ty => exact .ok .refl
    | error error => exact (delivers_poison (s := s.report _) hs symbol.ty).bind fun _ h => .ok h

theorem delivers_settleSymbols (hs : s.subst.Acyclic) (failed : List DeclId)
    (entries : List (DeclId × Symbol)) :
    Delivers (fun result => s.subst.Grows result.2.subst) (s.settleSymbols failed entries) := by
  induction entries generalizing s with
  | nil => exact .ok .refl
  | cons entry rest ih =>
      obtain ⟨decl, symbol⟩ := entry
      rw [settleSymbols]
      apply (delivers_settleSymbol hs failed decl symbol).bind
      intro ⟨first, t⟩ hgrows
      apply (ih (s := t) (hgrows.acyclic hs)).bind
      intro ⟨others, u⟩ hlater
      exact .ok (hgrows.trans hlater)

theorem delivers_closeScope (hs : s.subst.Acyclic) (pool : VarPool) (table : SymbolTable) :
    Delivers (fun result => s.subst.Grows result.2.2.1.subst) (s.closeScope pool table) := by
  rw [closeScope]
  split
  · exact .error rfl
  · rename_i scope outer _
    have hscope : Delivers (fun result => s.subst.Grows result.2.1.subst)
        (s.settleScope pool scope) := by
      apply (delivers_reconcileAll hs pool scope.symbols.entries).bind
      intro ⟨failed, t, pool⟩ hreconcile
      have ht := hreconcile.acyclic hs
      apply (delivers_dischargeTraits ht).bind
      intro u hsame
      apply (delivers_settleSymbols (s := u) (hsame.symm ▸ ht) failed _).bind
      intro ⟨symbols, w⟩ hsettle
      exact .ok (hreconcile.trans (hsame ▸ hsettle))
    exact hscope.bind fun _ h => .ok h

theorem delivers_reportOpen (hs : s.subst.Acyclic) (subject : String) (ty : Ty)
    (origin : NodeId) :
    Delivers (fun result => s.subst.Grows result.subst) (s.reportOpen subject ty origin) :=
  delivers_poison (s := s.reportError _ origin) hs ty

theorem delivers_settleObligation (hs : s.subst.Acyclic) (obligation : Obligation) :
    Delivers (fun result => s.subst.Grows result.subst) (s.settleObligation obligation) := by
  apply (delivers_apply hs obligation.ty).bind
  intro ty _
  split
  · exact .ok .refl
  · exact delivers_reportOpen hs _ _ _

theorem delivers_settleExprs (hs : s.subst.Acyclic) (entries : List (ExprId × Inferred)) :
    Delivers (fun result => s.subst.Grows result.2.subst) (s.settleExprs entries) := by
  induction entries generalizing s with
  | nil => exact .ok .refl
  | cons entry rest ih =>
      obtain ⟨expr, inferred⟩ := entry
      rw [settleExprs]
      apply (delivers_apply hs inferred.ty).bind
      intro ty _
      split
      · exact (ih hs).bind fun _ h => .ok h
      · apply (delivers_reportOpen hs _ ty _).bind
        intro t hgrows
        exact (ih (hgrows.acyclic hs)).mono fun _ hlater => hgrows.trans hlater

theorem delivers_settle (hs : s.subst.Acyclic) :
    Delivers (fun result => s.subst.Grows result.2.subst) s.settle := by
  apply (delivers_dischargeTraits hs).bind
  intro t hsame
  have hobligations : Delivers (fun u : Session => s.subst.Grows u.subst)
      (t.obligations.foldlM settleObligation { t with obligations := [] }) := by
    apply Delivers.foldlM _ (hsame.symm ▸ .refl)
    intro u obligation hgrows
    exact (delivers_settleObligation (hgrows.acyclic hs) obligation).mono
      fun _ hlater => hgrows.trans hlater
  apply hobligations.bind
  intro u hgrows
  exact (delivers_settleExprs (hgrows.acyclic hs) _).mono fun _ hlater => hgrows.trans hlater

theorem delivers_finish (hs : s.subst.Acyclic) : Delivers (fun _ => True) s.finish := by
  apply (delivers_settle hs).bind
  intro ⟨exprs, t⟩ _
  dsimp only
  split
  · exact .ok trivial
  · exact .ok trivial

end Session

/-- Whatever the command and whatever surrounds the session, its substitution grows. -/
theorem Workspace.delivers_exec {w : Workspace} (hs : w.session.subst.Acyclic)
    (command : Command) :
    Delivers (fun result => w.session.subst.Grows result.2.session.subst) (w.exec command) := by
  have hsame {t : Session} (h : t.subst = w.session.subst) : w.session.subst.Grows t.subst :=
    h.symm ▸ .refl
  cases command with
  | freshVars count =>
      exact (w.session.delivers_freshVars w.pool count).bind fun _ h => .ok (hsame h)
  | freshType => exact (w.session.delivers_freshVar w.pool).bind fun _ h => .ok (hsame h)
  | unify expected actual =>
      exact (Session.delivers_unify hs expected actual).bind fun _ h => .ok h
  | expect expected actual origin =>
      exact (Session.delivers_expect hs expected actual origin).bind fun _ h => .ok h
  | requireTrait ty traitName origin =>
      exact (Session.delivers_requireTrait hs ty traitName origin).bind fun _ h => .ok (hsame h)
  | dischargeTraits =>
      exact (Session.delivers_dischargeTraits hs).bind fun _ h => .ok (hsame h)
  | binary operator lhs rhs origin =>
      exact (Session.delivers_binary hs operator lhs rhs origin).bind fun _ h => .ok h
  | call callee args origin =>
      exact (Session.delivers_call hs w.pool callee args origin).bind fun _ h => .ok h
  | resolveAscription written =>
      exact (w.session.delivers_resolveAscription w.pool written).bind fun _ h => .ok (hsame h)
  | closeScope => exact (Session.delivers_closeScope hs w.pool w.table).bind fun _ h => .ok h
  | publish symbol =>
      have htable : Delivers (fun _ => True) (w.table.declare symbol) := by
        rw [SymbolTable.declare]
        split
        · exact .error rfl
        · split
          · exact .error rfl
          · split
            · exact .error rfl
            · exact .ok trivial
      exact htable.bind fun _ _ => .ok .refl
  | lookupOrUnknown name origin span =>
      have hsession : (w.session.lookupOrUnknown w.table name origin span).2.subst =
          w.session.subst := by
        rw [Session.lookupOrUnknown]
        split
        · rfl
        · rfl
      exact .ok (hsame hsession)
  | popScope =>
      rw [exec]
      split
      · exact .ok .refl
      · exact .ok .refl
  | recordExpr expr inferred => exact .ok .refl
  | report report => exact .ok .refl
  | takeTrace => exact .ok .refl
  | declare name span ascription => exact .ok .refl
  | pushScope => exact .ok .refl

end TypeInference

/-
# Open types are reported once

Closing a scope and ending a session report the types that are still open.  The
variables of such a type are poisoned at once and stay bound from then on.  What
is reported later was applied before, so that none of its variables has been
reported.

A run is watched through its moments: the states it comes to, each with the open
types that closing a scope or ending the session reported on the way to it.
`Passes` reads the operations once and says how one moment follows another; all
that is claimed of a run follows from it by induction.
-/

import TypeInference.Proofs.Session.Obligation

namespace TypeInference

/-- The variables of the types that an error is about. -/
def TypeError.vars (error : TypeError) : List VarId := error.types.flatMap Ty.freeVars

/-- Whether a command closes a scope. -/
def Command.closes : Command → Bool
  | .closeScope => true
  | _ => false

namespace Session

open Relation

/-- The reports of open types that the second session has and the first has not. -/
def openSince (s t : Session) : List Report :=
  (t.reports.drop s.reports.length).filter fun report => report.category = .unresolvedType

/-- The reports of open types that closing scopes and ending the session make, in
a run that carries out calls and then ends. -/
def openReports (s : Session) : List Call → Except Fault (List Report)
  | [] => do
      let (_, last) ← s.settle
      .ok (s.openSince last)
  | call :: rest => do
      let (_, t) ← s.exec call
      let later ← t.openReports rest
      .ok (if call.command.closes then s.openSince t ++ later else later)

/-- A state of a run, with the open types that closing a scope or ending the
session reported on the way to it. -/
structure Moment where
  session : Session
  found : List Report

/-- The moment at which a part of closing a scope or of ending the session is over. -/
def passTo (s t : Session) : Moment := ⟨t, s.openSince t⟩

/-- The moments of a loop, one for each round, and the state it ends in. -/
def watch {α : Type} (round : Session → α → Except Fault Session) (s : Session) :
    List α → Except Fault (List Moment × Session)
  | [] => .ok ([], s)
  | a :: rest => do
      let t ← round s a
      let (later, last) ← t.watch round rest
      .ok (s.passTo t :: later, last)

/-- One round of settling symbols. -/
def settleEntry (failed : List DeclId) (s : Session) (entry : DeclId × Symbol) :
    Except Fault Session :=
  (s.settleSymbol failed entry.1 entry.2).map Prod.snd

/-- One round of settling expressions. -/
def settleExpr (s : Session) (entry : ExprId × Inferred) : Except Fault Session :=
  (s.settleExprs [entry]).map Prod.snd

/-- The moments of closing a scope, which ends in a given state. -/
def watchScope (s : Session) (pool : VarPool) (scope : Scope) (last : Session) :
    Except Fault (List Moment) := do
  let (failed, t, _) ← s.reconcileAll pool scope.symbols.entries
  let u ← t.dischargeTraits
  let (rounds, w) ← u.watch (settleEntry failed) scope.symbols.entries
  .ok (s.passTo t :: t.passTo u :: (rounds ++ [w.passTo last]))

/-- The moments of one call, which ends in a given state. -/
def watchCall (s : Session) (call : Call) (last : Session) : Except Fault (List Moment) :=
  match call.command, call.table.pop? with
  | .closeScope, some (scope, _) => s.watchScope call.pool scope last
  | _, _ => .ok [⟨last, []⟩]

/-- The moments of ending a session. -/
def watchEnd (s : Session) : Except Fault (List Moment) := do
  let t ← s.dischargeTraits
  let (early, u) ← { t with obligations := [] }.watch settleObligation t.obligations
  let (late, _) ← u.watch settleExpr u.exprs.entries
  .ok (s.passTo { t with obligations := [] } :: (early ++ late))

/-- The moments of a run that carries out calls and then ends. -/
def history (s : Session) : List Call → Except Fault (List Moment)
  | [] => s.watchEnd
  | call :: rest => do
      let (_, t) ← s.exec call
      let moments ← s.watchCall call t
      let later ← t.history rest
      .ok (moments ++ later)

variable {s t u : Session}

/-- The second session is a later state of the first, within an operation or after it. -/
abbrev Onward : Session → Session → Prop :=
  ReflTransGen fun s t => Step s t ∨ Act (fun _ => True) s t

theorem Acts.onward (h : Acts (fun _ => True) s t) : Onward s t :=
  ReflTransGen.mono (fun _ _ hact => .inr hact) _ _ h

theorem Onward.grows (h : Onward s t) (hs : s.subst.Acyclic) : s.subst.Grows t.subst := by
  induction h with
  | refl => exact .refl
  | tail _ hstep ih =>
      rcases hstep with hstep | hact
      · exact ih.trans (hstep.grows (ih.acyclic hs))
      · exact ih.trans (hact.grows (ih.acyclic hs))

theorem Step.reports (h : Step s t) : s.reports <+: t.reports := by
  rcases h.acts with rfl | ⟨command, hacts⟩
  · exact List.prefix_rfl
  · rw [← reports_recordedBy s command]
    exact hacts.advances.reports

theorem Onward.reports (h : Onward s t) : s.reports <+: t.reports := by
  induction h with
  | refl => exact List.prefix_rfl
  | tail _ hstep ih =>
      rcases hstep with hstep | hact
      · exact ih.trans hstep.reports
      · exact ih.trans hact.advances.reports

theorem openSince_trans (h : s.reports <+: t.reports) (h' : t.reports <+: u.reports) :
    s.openSince u = s.openSince t ++ t.openSince u := by
  obtain ⟨early, hearly⟩ := h
  obtain ⟨late, hlate⟩ := h'
  rw [openSince, openSince, openSince, ← hlate, ← hearly]
  simp

/-- The second session has reported more than the first, but no open type. -/
def Quiet (s t : Session) : Prop :=
  ∃ added, t.reports = s.reports ++ added ∧ ∀ report ∈ added, report.category ≠ .unresolvedType

namespace Quiet

theorem of_reports_eq (h : t.reports = s.reports) : Quiet s t :=
  ⟨[], by rw [h, List.append_nil], fun _ hreport => absurd hreport List.not_mem_nil⟩

theorem trans (h : Quiet s t) (h' : Quiet t u) : Quiet s u := by
  obtain ⟨early, hearly, hno⟩ := h
  obtain ⟨late, hlate, hno'⟩ := h'
  refine ⟨early ++ late, ?_, List.forall_mem_append.mpr ⟨hno, hno'⟩⟩
  rw [hlate, hearly, List.append_assoc]

theorem report (h : Quiet s t) {report : Report} (hreport : report.category ≠ .unresolvedType) :
    Quiet s (t.report report) :=
  h.trans ⟨[report], rfl, List.forall_mem_singleton.mpr hreport⟩

theorem openSince_eq_nil (h : Quiet s t) : s.openSince t = [] := by
  obtain ⟨added, hadded, hno⟩ := h
  rw [openSince, hadded, List.drop_left, List.filter_eq_nil_iff]
  intro report hreport
  simpa using hno report hreport

end Quiet

mutual

theorem category_of_toTy_error : (written : Ascription) → {supply supply' : VarSupply} →
    {pool pool' : VarPool} → {error : TypeError} →
    written.toTy supply pool = .ok (.error error, supply', pool') →
    error.category = .unknownType
  | .named name, _, _, _, _, error, h => by
      rw [Ascription.toTy, Except.ok.injEq, Prod.mk.injEq] at h
      have hnamed := h.1
      unfold Ty.named at hnamed
      split at hnamed
      · cases hnamed
      · cases hnamed
      · cases hnamed
      · split at hnamed
        · cases hnamed
        · cases hnamed
          rfl
  | .hole, _, _, _, _, error, h => by
      rw [Ascription.toTy] at h
      obtain ⟨_, _, h⟩ := exists_of_bind_eq_ok h
      cases h
  | .func params result, _, _, _, _, error, h => by
      rw [Ascription.toTy] at h
      obtain ⟨⟨params', _, _⟩, hparams, h⟩ := exists_of_bind_eq_ok h
      cases params' with
      | error _ =>
          cases h
          exact category_of_toTys_error params hparams
      | ok params' =>
          obtain ⟨⟨result', _, _⟩, hresult, h⟩ := exists_of_bind_eq_ok h
          cases result' with
          | error _ =>
              cases h
              exact category_of_toTy_error result hresult
          | ok result' => cases h

theorem category_of_toTys_error : (list : List Ascription) → {supply supply' : VarSupply} →
    {pool pool' : VarPool} → {error : TypeError} →
    Ascription.toTys supply pool list = .ok (.error error, supply', pool') →
    error.category = .unknownType
  | [], _, _, _, _, error, h => by
      rw [Ascription.toTys] at h
      cases h
  | first :: rest, _, _, _, _, error, h => by
      rw [Ascription.toTys] at h
      obtain ⟨⟨first', _, _⟩, hfirst, h⟩ := exists_of_bind_eq_ok h
      cases first' with
      | error _ =>
          cases h
          exact category_of_toTy_error first hfirst
      | ok first' =>
          obtain ⟨⟨rest', _, _⟩, hrest, h⟩ := exists_of_bind_eq_ok h
          cases rest' with
          | error _ =>
              cases h
              exact category_of_toTys_error rest hrest
          | ok rest' => cases h

end

theorem category_of_unify_error (hs : s.subst.Acyclic) {a b : Ty} {error : TypeError}
    (h : s.unify a b = .ok (.error error, t)) : error.category ≠ .unresolvedType := by
  rcases unify_cases hs a b with ⟨_, _, heq⟩ | ⟨_, _, _, _, _, _, _, hstuck, heq⟩
  · cases heq.symm.trans h
  · cases heq.symm.trans h
    intro hopen
    have hcategory := hstuck.category
    rw [hopen] at hcategory
    simp at hcategory

theorem category_of_requireTrait_error {ty : Ty} {traitName : String} {origin : NodeId}
    {error : TypeError} (h : s.requireTrait ty traitName origin = .ok (.error error, t)) :
    error.category = .traitBound := by
  rw [requireTrait] at h
  split at h
  · obtain ⟨subject, _, h⟩ := exists_of_bind_eq_ok h
    split at h
    · cases h
    · cases h
    · cases h
    · obtain ⟨answer, _, h⟩ := exists_of_bind_eq_ok h
      split at h
      · cases h
      · obtain ⟨applied, _, h⟩ := exists_of_bind_eq_ok h
        cases h
        rfl
  · cases h

theorem quiet_reconcile (hs : s.subst.Acyclic) {pool pool' : VarPool} {decl : DeclId}
    {symbol : Symbol} {agreed : Bool}
    (h : s.reconcile pool decl symbol = .ok (agreed, t, pool')) : Quiet s t := by
  rw [reconcile] at h
  split at h
  · cases h
    exact .of_reports_eq rfl
  · obtain ⟨⟨annotated, u, _⟩, hwritten, h⟩ := exists_of_bind_eq_ok h
    obtain ⟨⟨_, supply, _⟩, hty, hwritten⟩ := exists_of_bind_eq_ok hwritten
    cases hwritten
    cases annotated with
    | error error =>
        cases h
        refine (Quiet.of_reports_eq rfl).report ?_
        rw [Report.category, category_of_toTy_error _ hty]
        exact Category.noConfusion
    | ok annotated =>
        obtain ⟨⟨outcome, w⟩, hunify, h⟩ := exists_of_bind_eq_ok h
        have hquiet : Quiet s w := by
          obtain ⟨_, _, rfl⟩ := frame_unify hunify
          exact .of_reports_eq rfl
        cases outcome with
        | ok =>
            cases h
            exact hquiet
        | error error =>
            cases h
            exact hquiet.report (category_of_unify_error (s := { s with supply }) hs hunify)

theorem quiet_reconcileAll (hs : s.subst.Acyclic) {pool pool' : VarPool}
    {entries : List (DeclId × Symbol)} {failed : List DeclId}
    (h : s.reconcileAll pool entries = .ok (failed, t, pool')) : Quiet s t := by
  induction entries generalizing s pool failed with
  | nil =>
      cases h
      exact .of_reports_eq rfl
  | cons entry rest ih =>
      rw [reconcileAll] at h
      obtain ⟨⟨agreed, u, _⟩, hfirst, h⟩ := exists_of_bind_eq_ok h
      obtain ⟨⟨others, w, _⟩, hothers, h⟩ := exists_of_bind_eq_ok h
      cases h
      have hu : u.subst.Acyclic :=
        ((delivers_reconcile hs pool entry.1 entry.2).of_eq_ok hfirst).acyclic hs
      exact (quiet_reconcile hs hfirst).trans (ih hu hothers)

theorem quiet_discharge {obligation : Obligation} (h : s.discharge obligation = .ok t) :
    Quiet s t := by
  obtain ⟨⟨outcome, u⟩, hrequire, h⟩ := exists_of_bind_eq_ok h
  have hquiet : Quiet s u := by
    obtain ⟨_, rfl⟩ := frame_requireTrait hrequire
    exact .of_reports_eq rfl
  cases outcome with
  | ok =>
      cases h
      exact hquiet
  | error error =>
      cases h
      refine hquiet.report ?_
      rw [Report.category, Report.ofError, category_of_requireTrait_error hrequire]
      exact Category.noConfusion

theorem quiet_dischargeTraits (h : s.dischargeTraits = .ok t) : Quiet s t := by
  have hloop {list : List Obligation} {s : Session} (h : list.foldlM discharge s = .ok t) :
      Quiet s t := by
    induction list generalizing s with
    | nil =>
        cases h
        exact .of_reports_eq rfl
    | cons first rest ih =>
        rw [List.foldlM_cons] at h
        obtain ⟨u, hfirst, h⟩ := exists_of_bind_eq_ok h
        exact (quiet_discharge hfirst).trans (ih h)
  have hquiet : Quiet { s with obligations := [] } t := hloop h
  exact hquiet

variable {report : Report}

/-- An open type was reported, and its variables were poisoned at once. -/
def Exposes (s : Session) (report : Report) (t : Session) : Prop :=
  ∃ source subject ty, s.apply source = .ok ty ∧ ty.isClosed = false ∧
    report.error = .unresolved subject ty ∧ (s.report report).poison source = .ok t

namespace Exposes

theorem openSince_eq (h : Exposes s report t) : s.openSince t = [report] := by
  obtain ⟨source, subject, ty, _, _, herror, hpoison⟩ := h
  obtain ⟨_, rfl⟩ := frame_poison hpoison
  simp [openSince, Session.report, Report.category, herror, TypeError.category]

theorem onward (h : Exposes s report t) : Onward s t := by
  obtain ⟨source, subject, ty, _, _, _, hpoison⟩ := h
  exact (acts_report_poison hpoison).1.onward

theorem category_eq (h : Exposes s report t) : report.category = .unresolvedType := by
  obtain ⟨source, subject, ty, _, _, herror, _⟩ := h
  rw [Report.category, herror]
  rfl

theorem vars_ne_nil (h : Exposes s report t) : report.error.vars ≠ [] := by
  obtain ⟨source, subject, ty, _, hopen, herror, _⟩ := h
  rw [herror, TypeError.vars, TypeError.types, List.flatMap_singleton]
  intro hnone
  have hclosed : ty.isClosed = true := by
    refine Ty.isClosed_iff.mpr fun v => Bool.eq_false_iff.mpr fun hv => ?_
    have hmem := Ty.mem_freeVars.mpr hv
    rw [hnone] at hmem
    cases hmem
  rw [hclosed] at hopen
  cases hopen

/-- The variables were open before, and are bound to `error` afterwards. -/
theorem lookup_vars (h : Exposes s report t) (hs : s.subst.Acyclic) {v : VarId}
    (hv : v ∈ report.error.vars) :
    s.subst.lookup v = none ∧ t.subst.lookup v = some .error := by
  obtain ⟨source, subject, ty, happly, _, herror, hpoison⟩ := h
  rw [herror, TypeError.vars, TypeError.types, List.flatMap_singleton] at hv
  obtain ⟨_, happlied, hpoison⟩ := exists_of_bind_eq_ok hpoison
  cases happly.symm.trans happlied
  obtain ⟨subst, hbind, hpoison⟩ := exists_of_bind_eq_ok hpoison
  cases hpoison
  have hunbound : s.subst.lookup v = none := by
    rw [apply, hs.apply_eq_ok] at happly
    cases happly
    exact hs.lookup_eq_none_of_occurs (Ty.mem_freeVars.mp hv)
  refine ⟨hunbound, ?_⟩
  rw [Subst.lookup_of_foldlM_bind_error hbind, if_pos ⟨hv, hunbound⟩]

end Exposes

/-- How a moment follows a state: no open type was reported, or one was. -/
inductive Arrives (s : Session) : Moment → Prop
  | quiet {t : Session} (h : Onward s t) : Arrives s ⟨t, []⟩
  | exposes {t : Session} {report : Report} (h : Exposes s report t) : Arrives s ⟨t, [report]⟩

namespace Arrives

theorem of_quiet (h : Quiet s t) (honward : Onward s t) : Arrives s (s.passTo t) := by
  rw [passTo, h.openSince_eq_nil]
  exact .quiet honward

theorem of_exposes (h : Exposes s report t) : Arrives s (s.passTo t) := by
  rw [passTo, h.openSince_eq]
  exact .exposes h

theorem self (s : Session) : Arrives s (s.passTo s) := .of_quiet (.of_reports_eq rfl) .refl

theorem onward {x : Moment} (h : Arrives s x) : Onward s x.session := by
  cases h with
  | quiet h => exact h
  | exposes h => exact h.onward

end Arrives

theorem arrives_settleEntry {failed : List DeclId} {entry : DeclId × Symbol}
    (h : settleEntry failed s entry = .ok t) : Arrives s (s.passTo t) := by
  obtain ⟨⟨resolved, _⟩, hsettle, rfl⟩ := exists_of_map_eq_ok h
  rw [settleSymbol] at hsettle
  split at hsettle
  · cases hsettle
    exact .self s
  · obtain ⟨answer, hanswer, hsettle⟩ := exists_of_bind_eq_ok hsettle
    obtain ⟨ty, happly, hanswer⟩ := exists_of_bind_eq_ok hanswer
    split at hanswer
    · cases hanswer
      cases hsettle
      exact .self s
    · rename_i hopen
      cases hanswer
      obtain ⟨u, hpoison, hsettle⟩ := exists_of_bind_eq_ok hsettle
      cases hsettle
      exact .of_exposes ⟨_, _, ty, happly, Bool.eq_false_iff.mpr hopen, rfl, hpoison⟩

/-- Reporting an open type that was applied before exposes it. -/
theorem exposes_reportOpen (hs : s.subst.Acyclic) {source ty : Ty} {subject : String}
    {origin : NodeId} (happly : s.apply source = .ok ty) (hopen : ¬ ty.isClosed = true)
    (h : s.reportOpen subject ty origin = .ok t) :
    Exposes s (.ofError (.unresolved subject ty) origin) t := by
  have hagain : s.apply ty = .ok ty := by
    rw [apply, hs.apply_eq_ok] at happly ⊢
    cases happly
    rw [Subst.Grows.refl.instantiate_image hs]
  exact ⟨ty, subject, ty, hagain, Bool.eq_false_iff.mpr hopen, rfl, h⟩

theorem arrives_settleObligation (hs : s.subst.Acyclic) {obligation : Obligation}
    (h : s.settleObligation obligation = .ok t) : Arrives s (s.passTo t) := by
  obtain ⟨ty, happly, h⟩ := exists_of_bind_eq_ok h
  split at h
  · cases h
    exact .self s
  · rename_i hopen
    exact .of_exposes (exposes_reportOpen hs happly hopen h)

theorem arrives_settleExpr (hs : s.subst.Acyclic) {entry : ExprId × Inferred}
    (h : s.settleExpr entry = .ok t) : Arrives s (s.passTo t) := by
  obtain ⟨expr, inferred⟩ := entry
  obtain ⟨⟨settled, _⟩, hsettle, rfl⟩ := exists_of_map_eq_ok h
  rw [settleExprs] at hsettle
  obtain ⟨ty, happly, hsettle⟩ := exists_of_bind_eq_ok hsettle
  split at hsettle
  · cases hsettle
    exact .self s
  · rename_i hopen
    obtain ⟨u, hreport, hsettle⟩ := exists_of_bind_eq_ok hsettle
    cases hsettle
    exact .of_exposes (exposes_reportOpen hs happly hopen hreport)

/-- A run passes through moments, one after the other. -/
inductive Passes : Session → List Moment → Session → Prop
  | nil (s : Session) : Passes s [] s
  | cons {s t : Session} {x : Moment} {rest : List Moment} (h : Arrives s x)
      (hrest : Passes x.session rest t) : Passes s (x :: rest) t

namespace Passes

variable {moments later : List Moment}

theorem append (h : Passes s moments t) (h' : Passes t later u) :
    Passes s (moments ++ later) u := by
  induction h with
  | nil => exact h'
  | cons harrives _ ih => exact .cons harrives (ih h')

theorem onward (h : Passes s moments t) : Onward s t := by
  induction h with
  | nil => exact .refl
  | cons harrives _ ih => exact harrives.onward.trans ih

theorem isChain (h : Passes s moments t) : (s :: moments.map Moment.session).IsChain Onward := by
  induction h with
  | nil => exact List.isChain_singleton _
  | cons harrives _ ih => exact List.isChain_cons_cons.mpr ⟨harrives.onward, ih⟩

theorem last_eq (h : Passes s moments t) : (moments.map Moment.session).getLastD s = t := by
  induction h with
  | nil => rfl
  | cons _ _ ih => rw [List.map_cons, List.getLastD_cons, ih]

/-- Every open type that was reported is exposed at its moment. -/
theorem exists_exposes (h : Passes s moments t) (hs : s.subst.Acyclic) {x : Moment}
    (hx : x ∈ moments) (hreport : report ∈ x.found) :
    ∃ before : Session, before.subst.Acyclic ∧ Exposes before report x.session := by
  induction h with
  | nil => cases hx
  | @cons s t y rest harrives _ ih =>
      rcases List.mem_cons.mp hx with rfl | hx
      · cases harrives with
        | quiet _ => cases hreport
        | exposes hexposes => exact ⟨s, hs, List.mem_singleton.mp hreport ▸ hexposes⟩
      · exact ih ((harrives.onward.grows hs).acyclic hs) hx

/-- What a run reports as open was open when the run began. -/
theorem lookup_eq_none (h : Passes s moments t) (hs : s.subst.Acyclic)
    (hreport : report ∈ moments.flatMap Moment.found) {v : VarId} (hv : v ∈ report.error.vars) :
    s.subst.lookup v = none := by
  induction h with
  | nil => cases hreport
  | @cons s t y rest harrives _ ih =>
      rw [List.flatMap_cons, List.mem_append] at hreport
      rcases hreport with hreport | hreport
      · cases harrives with
        | quiet _ => cases hreport
        | exposes hexposes =>
            rw [List.mem_singleton.mp hreport] at hv
            exact (hexposes.lookup_vars hs hv).1
      · have hgrows := harrives.onward.grows hs
        have hopen := ih (hgrows.acyclic hs) hreport
        cases hbound : s.subst.lookup v with
        | none => rfl
        | some ty => cases (hgrows.lookup_eq_some hbound).symm.trans hopen

/-- No two reports of open types share a variable. -/
theorem pairwise_disjoint (h : Passes s moments t) (hs : s.subst.Acyclic) :
    (moments.flatMap Moment.found).Pairwise fun first second =>
      first.error.vars.Disjoint second.error.vars := by
  induction h with
  | nil => exact .nil
  | @cons s t y rest harrives hrest ih =>
      have hgrows := harrives.onward.grows hs
      have hlater := ih (hgrows.acyclic hs)
      cases harrives with
      | quiet _ => exact hlater
      | exposes hexposes =>
          refine List.pairwise_cons.mpr ⟨fun second hsecond v hv hv' => ?_, hlater⟩
          have hbound := (hexposes.lookup_vars hs hv).2
          have hopen := lookup_eq_none hrest (hgrows.acyclic hs) hsecond hv'
          cases hbound.symm.trans hopen

end Passes

/-! ## The moments of a run -/

/-- A part of closing a scope or of ending a session passes through moments that
have all the reports of open types that it makes. -/
structure Covers (s : Session) (moments : List Moment) (t : Session) : Prop where
  passes : Passes s moments t
  found : moments.flatMap Moment.found = s.openSince t

namespace Covers

theorem nil (s : Session) : Covers s [] s := ⟨.nil s, by simp [openSince]⟩

theorem single (h : Arrives s (s.passTo t)) : Covers s [s.passTo t] t :=
  ⟨.cons h (.nil t), List.flatMap_singleton _ _⟩

theorem append {moments later : List Moment} (h : Covers s moments t) (h' : Covers t later u) :
    Covers s (moments ++ later) u := by
  refine ⟨h.passes.append h'.passes, ?_⟩
  rw [List.flatMap_append, h.found, h'.found]
  exact (openSince_trans h.passes.onward.reports h'.passes.onward.reports).symm

end Covers

theorem exists_watch {α : Type} {round : Session → α → Except Fault Session}
    (hround : ∀ s a t, s.subst.Acyclic → round s a = .ok t → Arrives s (s.passTo t))
    (hs : s.subst.Acyclic) {list : List α} (h : list.foldlM round s = .ok t) :
    ∃ moments, s.watch round list = .ok (moments, t) ∧ Covers s moments t := by
  induction list generalizing s with
  | nil =>
      cases h
      exact ⟨[], rfl, .nil _⟩
  | cons a rest ih =>
      rw [List.foldlM_cons] at h
      obtain ⟨u, hfirst, h⟩ := exists_of_bind_eq_ok h
      have harrives := hround s a u hs hfirst
      have hu : u.subst.Acyclic := (harrives.onward.grows hs).acyclic hs
      obtain ⟨later, hwatch, hcovers⟩ := ih hu h
      refine ⟨s.passTo u :: later, ?_, (Covers.single harrives).append hcovers⟩
      rw [watch, hfirst]
      show (u.watch round rest >>= _) = _
      rw [hwatch]
      rfl

theorem foldlM_settleEntry {failed : List DeclId} {entries : List (DeclId × Symbol)}
    {symbols : List ResolvedSymbol} (h : s.settleSymbols failed entries = .ok (symbols, t)) :
    entries.foldlM (settleEntry failed) s = .ok t := by
  induction entries generalizing s symbols with
  | nil =>
      cases h
      rfl
  | cons entry rest ih =>
      rw [settleSymbols] at h
      obtain ⟨⟨first, u⟩, hfirst, h⟩ := exists_of_bind_eq_ok h
      obtain ⟨⟨others, w⟩, hothers, h⟩ := exists_of_bind_eq_ok h
      cases h
      rw [List.foldlM_cons, settleEntry, hfirst]
      exact ih hothers

theorem foldlM_settleExpr {entries settled : List (ExprId × Inferred)}
    (h : s.settleExprs entries = .ok (settled, t)) : entries.foldlM settleExpr s = .ok t := by
  induction entries generalizing s settled with
  | nil =>
      cases h
      rfl
  | cons entry rest ih =>
      obtain ⟨expr, inferred⟩ := entry
      rw [settleExprs] at h
      rw [List.foldlM_cons, settleExpr, settleExprs]
      obtain ⟨ty, happly, h⟩ := exists_of_bind_eq_ok h
      rw [happly]
      split at h
      · rename_i hclosed
        obtain ⟨⟨others, u⟩, hothers, h⟩ := exists_of_bind_eq_ok h
        cases h
        simpa [bind, Except.bind, hclosed, settleExprs, Except.map] using ih hothers
      · rename_i hopen
        obtain ⟨u, hreport, h⟩ := exists_of_bind_eq_ok h
        simpa [bind, Except.bind, hopen, hreport, settleExprs, Except.map] using ih h

theorem exists_watchScope (hs : s.subst.Acyclic) {pool pool' : VarPool} {scope : Scope}
    {failed : List DeclId} {symbols : List ResolvedSymbol} {w : Session}
    (hreconcile : s.reconcileAll pool scope.symbols.entries = .ok (failed, u, pool'))
    (hdischarge : u.dischargeTraits = .ok w)
    (hsettle : w.settleAndFile failed scope.symbols.entries = .ok (symbols, t)) :
    ∃ moments, s.watchScope pool scope t = .ok moments ∧ Covers s moments t := by
  have hgiven : ∀ entry ∈ scope.symbols.entries, (fun _ : Ty => True) entry.2.ty :=
    fun _ _ => trivial
  obtain ⟨⟨_, x⟩, hsymbols, h⟩ := exists_of_bind_eq_ok hsettle
  cases h
  obtain ⟨hreconciled, hfailed⟩ := acts_reconcileAll inherited_true hgiven hreconcile
  have hu := (hreconciled.grows hs).acyclic hs
  have hsame : w.subst = u.subst := (delivers_dischargeTraits hu).of_eq_ok hdischarge
  have hfailed' : w.reports = [] → failed = [] := by
    obtain ⟨_, _, rfl⟩ := frame_dischargeTraits hdischarge
    exact fun hnone => hfailed (List.append_eq_nil_iff.mp hnone).1
  have hsettled : x.reports = [] →
      x = w ∧ ∀ symbol ∈ symbols, w.Settled (fun _ => True) symbol :=
    (acts_settleSymbols hfailed' hgiven hsymbols).2
  have hfile : Act (fun _ => True) x { x with resolved := x.resolved ++ symbols } := by
    refine .file x symbols fun hnone => ?_
    obtain ⟨rfl, hall⟩ := hsettled hnone
    exact hall
  have hfirst : Arrives s (s.passTo u) := .of_quiet (quiet_reconcileAll hs hreconcile)
    hreconciled.onward
  have hsecond : Arrives u (u.passTo w) := .of_quiet (quiet_dischargeTraits hdischarge)
    (.single (.inr (.dischargeTraits hdischarge)))
  have hlast : Arrives x (x.passTo { x with resolved := x.resolved ++ symbols }) :=
    .of_quiet (.of_reports_eq rfl) (.single (.inr hfile))
  obtain ⟨rounds, hwatch, hrounds⟩ := exists_watch
    (fun _ _ _ _ h => arrives_settleEntry h) (hsame ▸ hu) (foldlM_settleEntry hsymbols)
  refine ⟨_, ?_, (Covers.single hfirst).append
    ((Covers.single hsecond).append (hrounds.append (.single hlast)))⟩
  simp [watchScope, hreconcile, hdischarge, hwatch, bind, Except.bind]

/-- A call passes through its moments.  They have the reports of open types that it
makes if it closes a scope, and none otherwise. -/
theorem exists_watchCall (hs : s.subst.Acyclic) {call : Call} {reply : Reply}
    (h : s.exec call = .ok (reply, t)) :
    ∃ moments, s.watchCall call t = .ok moments ∧ Passes s moments t ∧
      moments.flatMap Moment.found = if call.command.closes then s.openSince t else [] := by
  obtain ⟨declarations, table, pool, command⟩ := call
  cases command with
  | closeScope =>
      obtain ⟨scope, outer, failed, u, pool', w, symbols, hpop, hreconcile, hdischarge, hsettle,
        rfl⟩ := exec_closeScope_eq_ok_iff.mp h
      obtain ⟨moments, hwatch, hcovers⟩ := exists_watchScope hs hreconcile hdischarge hsettle
      refine ⟨moments, ?_, hcovers.passes, hcovers.found⟩
      rw [watchCall, hpop]
      exact hwatch
  | _ => exact ⟨[⟨t, []⟩], rfl, .cons (.quiet (.single (.inl (step_of_exec h)))) (.nil t), rfl⟩

theorem exists_watchEnd (hs : s.subst.Acyclic) {settled : List (ExprId × Inferred)}
    (h : s.settle = .ok (settled, t)) :
    ∃ moments, s.watchEnd = .ok moments ∧ Covers s moments t := by
  obtain ⟨u, hdischarge, h⟩ := exists_of_bind_eq_ok h
  obtain ⟨w, hobligations, h⟩ := exists_of_bind_eq_ok h
  have hsame : u.subst = s.subst := (delivers_dischargeTraits hs).of_eq_ok hdischarge
  have hu : u.subst.Acyclic := hsame ▸ hs
  have hfirst : Arrives s (s.passTo { u with obligations := [] }) := by
    have hquiet : Quiet s u := quiet_dischargeTraits hdischarge
    refine .of_quiet hquiet (.tail (.single (.inr (.dischargeTraits hdischarge))) ?_)
    exact .inl (.dropObligations u)
  obtain ⟨early, hearly, hcovers⟩ := exists_watch
    (fun _ _ _ hs h => arrives_settleObligation hs h) (s := { u with obligations := [] }) hu
    hobligations
  have hw : w.subst.Acyclic := (hcovers.passes.onward.grows hu).acyclic hu
  obtain ⟨late, hlate, hcovers'⟩ := exists_watch
    (fun _ _ _ hs h => arrives_settleExpr hs h) hw (foldlM_settleExpr h)
  refine ⟨_, ?_, (Covers.single hfirst).append (hcovers.append hcovers')⟩
  simp [watchEnd, hdischarge, hearly, hlate, bind, Except.bind]

/-- A run that returns passes through its moments to its last state, and these have
all the reports of open types that closing scopes and ending the session make. -/
theorem exists_history (hs : s.subst.Acyclic) {calls : List Call} {replies : List Reply}
    (h : s.perform calls = .ok (replies, t)) {settled : List (ExprId × Inferred)} {last : Session}
    (hsettle : t.settle = .ok (settled, last)) :
    ∃ moments, s.history calls = .ok moments ∧ Passes s moments last ∧
      s.openReports calls = .ok (moments.flatMap Moment.found) := by
  induction calls generalizing s replies with
  | nil =>
      cases h
      obtain ⟨moments, hwatch, hcovers⟩ := exists_watchEnd hs hsettle
      refine ⟨moments, hwatch, hcovers.passes, ?_⟩
      rw [openReports, hsettle, hcovers.found]
      rfl
  | cons call rest ih =>
      obtain ⟨reply, u, others, hexec, hrest, rfl⟩ := perform_cons_eq_ok_iff.mp h
      obtain ⟨moments, hwatch, hpasses, hfound⟩ := exists_watchCall hs hexec
      obtain ⟨later, hlater, hpasses', hreports⟩ := ih ((hpasses.onward.grows hs).acyclic hs) hrest
      refine ⟨moments ++ later, ?_, hpasses.append hpasses', ?_⟩
      · simp [history, hexec, hwatch, hlater, bind, Except.bind]
      · rw [List.flatMap_append, hfound]
        simp only [openReports, hexec, hreports, bind, Except.bind]
        split <;> simp

/-- No variable is reported twice as open.

Take any run from a new session: it carries out calls, which may open and close
scopes in any order, and it is then ended.  Ending it returns.  Every open type that
closing a scope or ending the session reports has a variable, and no two of these
reports share one.  The run passes through a history of states that have just these
reports.  Where an open type was reported its variables are poisoned at once, and
they are bound to `error` in that state and in every later one. -/
theorem open_types_reported_once {registry : Registry} {options : SessionOptions}
    {pool pool' : VarPool} {first : Session} {calls : List Call} {replies : List Reply}
    (hnew : Session.new registry options pool = .ok (first, pool'))
    (hcalls : first.perform calls = .ok (replies, t)) :
    ∃ settled last reports moments, t.settle = .ok (settled, last) ∧
      first.openReports calls = .ok reports ∧
      (∀ report ∈ reports, report.category = .unresolvedType ∧ report.error.vars ≠ []) ∧
      (reports.Pairwise fun one other => one.error.vars.Disjoint other.error.vars) ∧
      first.history calls = .ok moments ∧ moments.flatMap Moment.found = reports ∧
      (first :: moments.map Moment.session).IsChain Onward ∧
      (moments.map Moment.session).getLastD first = last ∧
      ∀ x ∈ moments, ∀ report ∈ x.found, (∃ before, Exposes before report x.session) ∧
        ∀ later, Onward x.session later →
          ∀ v ∈ report.error.vars, later.subst.lookup v = some .error := by
  have hfirst : first.Reachable := ⟨registry, options, pool, first, pool', hnew, .refl⟩
  have hreach := hfirst.later (later_of_perform hcalls)
  have hs := hfirst.wellFormed.acyclic
  obtain ⟨settled, last, hsettle, _⟩ := exists_settle hreach.wellFormed hreach.waits
  obtain ⟨moments, hhistory, hpasses, hreports⟩ := exists_history hs hcalls hsettle
  refine ⟨settled, last, _, moments, hsettle, hreports, fun report hreport => ?_,
    hpasses.pairwise_disjoint hs, hhistory, rfl, hpasses.isChain, hpasses.last_eq, ?_⟩
  · obtain ⟨x, hx, hfound⟩ := List.mem_flatMap.mp hreport
    obtain ⟨_, _, hexposes⟩ := hpasses.exists_exposes hs hx hfound
    exact ⟨hexposes.category_eq, hexposes.vars_ne_nil⟩
  · intro x hx report hreport
    obtain ⟨before, hbefore, hexposes⟩ := hpasses.exists_exposes hs hx hreport
    refine ⟨⟨before, hexposes⟩, fun later hlater v hv => ?_⟩
    have hacyclic := (hexposes.onward.grows hbefore).acyclic hbefore
    exact (hlater.grows hacyclic).lookup_eq_some (hexposes.lookup_vars hbefore hv).2

/-- Two symbols of a closed scope, an obligation and an expression share an open
variable.  It is reported for the first symbol, and the other variable of the
expression at the end. -/
theorem open_types_reported_once_shared_variable :
    ∃ (first t : Session) (calls : List Call) (replies : List Reply) (reports : List Report),
      first.perform calls = .ok (replies, t) ∧ t.obligations ≠ [] ∧ t.exprs.size = 1 ∧
      first.openReports calls = .ok reports ∧
      reports.map (fun report => (report.origin, report.error.vars)) =
        [(.decl 0, [0]), (.expr 7, [1])] ∧
      reports.Pairwise fun one other => one.error.vars.Disjoint other.error.vars := by
  have hrun : ∃ (first t : Session) (calls : List Call) (replies : List Reply)
      (reports : List Report),
      Session.new Registry.builtin { varOffset := some 0 } ⟨0⟩ = .ok (first, ⟨0⟩) ∧
      first.perform calls = .ok (replies, t) ∧ t.obligations.length = 1 ∧ t.exprs.size = 1 ∧
      first.openReports calls = .ok reports ∧
      reports.map (fun report => (report.origin, report.error.vars)) =
        [(.decl 0, [0]), (.expr 7, [1])] :=
    ⟨_, _,
      [⟨.empty, .new, ⟨0⟩, .freshVars 2⟩,
       ⟨.empty, .new, ⟨0⟩, .requireTrait (.var 0) arithmetic (.expr 5)⟩,
       ⟨.empty, .new, ⟨0⟩, .recordExpr 7 (.ofTy (.func [.var 0] (.var 1)))⟩,
       ⟨.empty, ⟨[(Scope.empty.publish 0 ⟨some 0, "x", .synthetic, .ofTy (.var 0), none⟩).publish
          1 ⟨some 1, "y", .synthetic, .ofTy (.var 0), none⟩]⟩, ⟨0⟩, .closeScope⟩],
      _, _, rfl, rfl, rfl, rfl, rfl, rfl⟩
  obtain ⟨first, t, calls, replies, reports, hnew, hcalls, hobligations, hexprs, hreports,
    hvars⟩ := hrun
  obtain ⟨_, _, _, _, _, hsame, _, hdisjoint, _⟩ := open_types_reported_once hnew hcalls
  cases hreports.symm.trans hsame
  refine ⟨first, t, calls, replies, reports, hcalls, fun hnone => ?_, hexprs, hreports, hvars,
    hdisjoint⟩
  rw [hnone] at hobligations
  cases hobligations

end Session

end TypeInference

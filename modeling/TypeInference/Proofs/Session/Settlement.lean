/-
# The end of a session

Ending a reachable session always returns.  If it makes no report then it has
changed nothing: every obligation was met, every recorded type was closed, and
no variable was poisoned.
-/

import TypeInference.Proofs.Session.Command

namespace TypeInference.Session

variable {s s' : Session}

theorem exists_poison (hs : s.subst.Acyclic) (ty : Ty) :
    ∃ t, s.poison ty = .ok { s with subst := t } ∧ s.subst.Grows t := by
  obtain ⟨t, hbind, hgrows⟩ := Subst.exists_foldlM_bind_error
    (nodup_ascendingDistinct (ty.instantiate s.subst.image).varOccurrences)
    fun v hv => hs.lookup_eq_none_of_occurs (Ty.mem_freeVars.mp hv)
  refine ⟨t, ?_, hgrows⟩
  rw [poison, apply, hs.apply_eq_ok]
  exact congrArg (· >>= fun subst => Except.ok { s with subst }) hbind

/-- Reporting an open type returns, and something is reported after it. -/
theorem exists_reportOpen (hs : s.subst.Acyclic) (subject : String) (ty : Ty) (origin : NodeId) :
    ∃ t, s.reportOpen subject ty origin = .ok t ∧ t.subst.Acyclic ∧ t.reports ≠ [] := by
  obtain ⟨subst, hpoison, hgrows⟩ :=
    exists_poison (s := s.reportError (.unresolved subject ty) origin) hs ty
  exact ⟨_, hpoison, hgrows.acyclic hs, reports_report_ne_nil s _⟩

theorem exists_settleObligation (hs : s.subst.Acyclic) (obligation : Obligation) :
    ∃ t, s.settleObligation obligation = .ok t ∧ t.subst.Acyclic ∧
      (t.reports = [] → t = s ∧ (obligation.ty.instantiate s.subst.image).isClosed = true) := by
  rw [settleObligation, apply, hs.apply_eq_ok]
  by_cases hclosed : (obligation.ty.instantiate s.subst.image).isClosed = true
  · exact ⟨s, if_pos hclosed, hs, fun _ => ⟨rfl, hclosed⟩⟩
  · obtain ⟨t, hreport, ht, hreports⟩ := exists_reportOpen hs
      ("an operand requiring `" ++ obligation.traitName ++ "`")
      (obligation.ty.instantiate s.subst.image) obligation.origin
    exact ⟨t, (if_neg hclosed).trans hreport, ht, fun hnone => absurd hnone hreports⟩

theorem exists_settleObligations (hs : s.subst.Acyclic) (list : List Obligation) :
    ∃ t, list.foldlM settleObligation s = .ok t ∧ t.subst.Acyclic ∧ s.reports <+: t.reports ∧
      (t.reports = [] →
        t = s ∧ ∀ o ∈ list, (o.ty.instantiate s.subst.image).isClosed = true) := by
  induction list generalizing s with
  | nil =>
      exact ⟨s, rfl, hs, List.prefix_rfl, fun _ => ⟨rfl, fun _ ho => absurd ho List.not_mem_nil⟩⟩
  | cons first rest ih =>
      obtain ⟨t, hfirst, ht, hclosed⟩ := exists_settleObligation hs first
      obtain ⟨u, hrest, hu, hreports, hclosed'⟩ := ih ht
      have hacts : Acts (fun _ => True) s t := acts_settleObligation hfirst
      refine ⟨u, ?_, hu, hacts.advances.reports.trans hreports, fun hnone => ?_⟩
      · rw [List.foldlM_cons, hfirst]
        exact hrest
      · obtain ⟨rfl, hopen⟩ := hclosed (List.prefix_nil.mp (hnone ▸ hreports))
        obtain ⟨rfl, hothers⟩ := hclosed' hnone
        exact ⟨rfl, List.forall_mem_cons.mpr ⟨hopen, hothers⟩⟩

/-- The final types of recorded expressions, as long as nothing is reported. -/
theorem exists_settleExprs (hs : s.subst.Acyclic) (entries : List (ExprId × Inferred)) :
    ∃ settled t, s.settleExprs entries = .ok (settled, t) ∧
      (t.reports = [] → t = s ∧ settled.map Prod.fst = entries.map Prod.fst ∧
        ∀ entry ∈ settled, entry.2.ty.isClosed = true ∧
          ∃ source ∈ entries, s.apply source.2.ty = .ok entry.2.ty) := by
  induction entries generalizing s with
  | nil =>
      exact ⟨[], s, rfl, fun _ => ⟨rfl, rfl, fun _ hentry => absurd hentry List.not_mem_nil⟩⟩
  | cons entry rest ih =>
      obtain ⟨expr, inferred⟩ := entry
      have happly : s.apply inferred.ty = .ok (inferred.ty.instantiate s.subst.image) :=
        hs.apply_eq_ok inferred.ty
      rw [settleExprs, happly]
      by_cases hclosed : (inferred.ty.instantiate s.subst.image).isClosed = true
      · obtain ⟨others, t, hothers, hspec⟩ := ih hs
        refine ⟨(expr, { inferred with ty := inferred.ty.instantiate s.subst.image }) :: others, t,
          ?_, fun hnone => ?_⟩
        · show (if _ then _ else _) = _
          rw [if_pos hclosed, hothers]
          rfl
        · obtain ⟨rfl, hkeys, htypes⟩ := hspec hnone
          refine ⟨rfl, congrArg (expr :: ·) hkeys,
            List.forall_mem_cons.mpr ⟨?_, fun entry hentry => ?_⟩⟩
          · exact ⟨hclosed, _, List.mem_cons_self, happly⟩
          · obtain ⟨hentryClosed, source, hsource, hfinal⟩ := htypes entry hentry
            exact ⟨hentryClosed, source, List.mem_cons_of_mem _ hsource, hfinal⟩
      · obtain ⟨t, hreport, ht, hreports⟩ := exists_reportOpen hs
          ("expression " ++ (NodeId.expr expr).text) (inferred.ty.instantiate s.subst.image)
          (.expr expr)
        obtain ⟨others, u, hothers, _⟩ := ih ht
        refine ⟨others, u, ?_, fun hnone => ?_⟩
        · show (if _ then _ else _) = _
          rw [if_neg hclosed, hreport]
          exact hothers
        · have hacts : Acts (fun _ => True) t u := acts_settleExprs hothers
          exact absurd (hacts.advances.reports_eq_nil hnone) hreports

/-- What the end of a session found if it made no report. -/
structure SettlesQuietly (s : Session) (settled : List (ExprId × Inferred)) (last : Session) :
    Prop where
  unchanged : last = { s with obligations := [] }
  met : ∀ o ∈ s.obligations, s.registry.Meets o.traitName (s.subst.subject o.ty)
  keys : settled.map Prod.fst = s.exprs.keys
  closed : ∀ entry ∈ settled, entry.2.ty.isClosed = true
  applied : ∀ entry ∈ settled, ∃ source ∈ s.exprs.entries, s.apply source.2.ty = .ok entry.2.ty

/-- Ending a session returns. -/
theorem exists_settle (hs : s.subst.WellFormed) (hwaits : s.Waits) :
    ∃ settled last, s.settle = .ok (settled, last) ∧
      (last.reports = [] → s.SettlesQuietly settled last) := by
  obtain ⟨kept, refusals, htaken, hdischarge⟩ := dischargeTraits_eq hs hwaits
  obtain ⟨t, hobligations, ht, hreports, hclosed⟩ := exists_settleObligations
    (s := { s with obligations := [], reports := s.reports ++ refusals }) hs.acyclic kept
  obtain ⟨settled, last, hexprs, hspec⟩ := exists_settleExprs ht t.exprs.entries
  refine ⟨settled, last, ?_, fun hnone => ?_⟩
  · rw [settle, hdischarge]
    show (kept.foldlM settleObligation _ >>= _) = _
    rw [hobligations]
    exact hexprs
  · obtain ⟨rfl, hkeys, htypes⟩ := hspec hnone
    obtain ⟨rfl, hall⟩ := hclosed hnone
    obtain ⟨hreports, rfl⟩ := List.append_eq_nil_iff.mp hnone
    have hkept : kept = [] := by
      refine List.eq_nil_iff_forall_not_mem.mpr fun o ho => ?_
      obtain ⟨source, _, v, hsubject, rfl⟩ := htaken.exists_of_mem_kept ho
      have hopen := hall _ ho
      have hunbound := hs.lookup_of_subject hsubject
      rw [Ty.instantiate_var, Subst.image_of_lookup_eq_none hunbound] at hopen
      cases hopen
    subst hkept
    refine ⟨by rw [List.append_nil], fun o ho => ?_, hkeys,
      fun entry hentry => (htypes entry hentry).1, fun entry hentry => (htypes entry hentry).2⟩
    rcases htaken.cases_of_mem ho with hmeets | ⟨_, _, hkept⟩ | hrefused
    · exact hmeets
    · cases hkept
    · cases hrefused

section Finish

variable {settled : List (ExprId × Inferred)} {last : Session}

theorem finish_of_settle (h : s.settle = .ok (settled, last)) :
    s.finish = .ok (if last.reports = [] then .ok ⟨last.resolved, settled⟩
      else .error (last.reports.map Report.toDiagnostic)) := by
  rw [finish, h]
  cases hreports : last.reports with
  | nil => simp [bind, Except.bind, hasErrors, hreports]
  | cons first rest => simp [bind, Except.bind, hasErrors, diagnostics, hreports]

/-- A unit is handed on exactly if nothing has been reported in the end. -/
theorem finish_eq_unit_iff (h : s.settle = .ok (settled, last)) {unit : CheckedUnit} :
    s.finish = .ok (.ok unit) ↔ last.reports = [] ∧ unit = ⟨last.resolved, settled⟩ := by
  rw [finish_of_settle h]
  split
  · simp_all [eq_comm]
  · simp_all

/-- Otherwise every report is handed on as a diagnostic. -/
theorem finish_eq_diagnostics_iff (h : s.settle = .ok (settled, last))
    {diagnostics : List Diagnostic} :
    s.finish = .ok (.error diagnostics) ↔
      last.reports ≠ [] ∧ diagnostics = last.reports.map Report.toDiagnostic := by
  rw [finish_of_settle h]
  split
  · simp_all
  · simp_all [eq_comm]

end Finish

end TypeInference.Session

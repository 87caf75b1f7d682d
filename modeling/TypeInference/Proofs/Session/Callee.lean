/-
# Calls of what is already wrong

A callee that is wrong agrees with every function type, and nothing is bound when
the two are unified.  The new variable for the answer of the call therefore stays
as it is.  If it is recorded as the type of the call it is one more open type at the
end of the session, and is reported there although the callee was reported before.

What the end of a session reports is computed here from loose ends: types that have
to be closed, taken in order, where the variables of each open one are blanked in
those that follow.  A loose end whose variables no other one has can be left out, and
then just its own report is missing.
-/

import TypeInference.Proofs.Session.Idempotence
import TypeInference.Proofs.Session.OpenType

namespace TypeInference

theorem Ty.erase_unwrap (ty : Ty) : ty.unwrap.erase = ty.erase := by
  induction ty with
  | const base value ih => rw [unwrap, ih, erase_const]
  | _ => rfl

namespace Ty

/-- The two types have no variable in common. -/
def Apart (x y : Ty) : Prop := ∀ v, x.occurs v = true → y.occurs v = false

theorem Apart.symm {x y : Ty} (h : x.Apart y) : y.Apart x := by
  intro v hy
  by_contra hx
  exact absurd (h v (Bool.eq_true_of_not_eq_false hx)) (by simp [hy])

/-- A variable, with `error` for those that are hidden. -/
def blank (hidden : VarId → Bool) (v : VarId) : Ty := if hidden v = true then .error else .var v

theorem instantiate_blank_of_apart {x y : Ty} (h : x.Apart y) :
    x.instantiate (blank y.occurs) = x := by
  calc x.instantiate (blank y.occurs) = x.instantiate var :=
        instantiate_congr fun v hv => by simp [blank, h v hv]
    _ = x := instantiate_var_self x

theorem occurs_instantiate_blank {x : Ty} {hidden : VarId → Bool} {v : VarId} :
    (x.instantiate (blank hidden)).occurs v = true ↔ x.occurs v = true ∧ hidden v = false := by
  rw [occurs_instantiate]
  constructor
  · rintro ⟨w, hw, hv⟩
    cases hhidden : hidden w with
    | true =>
        rw [blank, if_pos hhidden] at hv
        cases hv
    | false =>
        rw [blank, hhidden] at hv
        cases occurs_var.mp hv
        exact ⟨hw, hhidden⟩
  · rintro ⟨hv, hhidden⟩
    refine ⟨v, hv, ?_⟩
    rw [blank, hhidden]
    exact occurs_var.mpr rfl

/-- To blank the variables of a type and then others, or the others and then what is left
of the type. -/
theorem instantiate_blank_comm (x y : Ty) (hidden : VarId → Bool) :
    (x.instantiate (blank y.occurs)).instantiate (blank hidden) =
      (x.instantiate (blank hidden)).instantiate
        (blank (y.instantiate (blank hidden)).occurs) := by
  rw [instantiate_instantiate, instantiate_instantiate]
  apply instantiate_congr
  intro v _
  have hleft : (y.instantiate (blank hidden)).occurs v = true ↔
      y.occurs v = true ∧ hidden v = false := occurs_instantiate_blank
  by_cases hy : y.occurs v = true <;> by_cases hhidden : hidden v = true <;>
    simp_all [blank, instantiate]

end Ty

namespace Subst

/-- Poisoning the variables of an applied type blanks them in everything. -/
theorem Acyclic.image_of_foldlM_bind {s t : Subst} (hs : s.Acyclic) {ty : Ty}
    (h : (ty.instantiate s.image).freeVars.foldlM (fun subst v => subst.bind v .error) s = .ok t)
    (hgrows : s.Grows t) (v : VarId) :
    t.image v = (s.image v).instantiate (Ty.blank (ty.instantiate s.image).occurs) := by
  have happlied : (s.image v).instantiate t.image = t.image v :=
    hgrows.instantiate_image hs (.var v)
  -- What `v` stood for has open variables only, and each of them is poisoned or still open.
  rw [← happlied]
  apply Ty.instantiate_congr
  intro w hw
  have hopen : s.lookup w = none := hs.lookup_eq_none_of_occurs_image v w hw
  have hlookup := lookup_of_foldlM_bind_error h w
  by_cases hocc : (ty.instantiate s.image).occurs w = true
  · have herror : t.lookup w = some .error := by
      rw [hlookup, if_pos ⟨Ty.mem_freeVars.mpr hocc, hopen⟩]
    rw [Ty.blank, if_pos hocc, (hgrows.acyclic hs).image_of_lookup_eq_some herror]
    rfl
  · have hnone : t.lookup w = none := by
      rw [hlookup, if_neg fun hpoisoned => hocc (Ty.mem_freeVars.mp hpoisoned.1), hopen]
    rw [Ty.blank, if_neg hocc, image_of_lookup_eq_none hnone]

end Subst

/-- A type that has to be closed at the end of a session, and what it is the type of. -/
structure LooseEnd where
  subject : String
  origin : NodeId
  ty : Ty

namespace LooseEnd

def ofObligation (o : Obligation) : LooseEnd :=
  ⟨"an operand requiring `" ++ o.traitName ++ "`", o.origin, o.ty⟩

def ofExpr (entry : ExprId × Inferred) : LooseEnd :=
  ⟨"expression " ++ (NodeId.expr entry.1).text, .expr entry.1, entry.2.ty⟩

/-- What variables stand for after a loose end: if it was open, its variables are blanked. -/
def close (image : VarId → Ty) (x : LooseEnd) (v : VarId) : Ty :=
  (image v).instantiate (Ty.blank (x.ty.instantiate image).occurs)

/-- The report of a loose end, if it is open. -/
def reports (image : VarId → Ty) (x : LooseEnd) : List Report :=
  if (x.ty.instantiate image).isClosed then []
  else [.ofError (.unresolved x.subject (x.ty.instantiate image)) x.origin]

/-- The reports of loose ends, in order. -/
def allReports (image : VarId → Ty) : List LooseEnd → List Report
  | [] => []
  | x :: rest => x.reports image ++ allReports (x.close image) rest

/-- What variables stand for after loose ends. -/
def closeAll (image : VarId → Ty) (list : List LooseEnd) : VarId → Ty := list.foldl close image

variable {image : VarId → Ty} {x : LooseEnd} {ty z : Ty}

theorem allReports_append (image : VarId → Ty) (list later : List LooseEnd) :
    allReports image (list ++ later) =
      allReports image list ++ allReports (closeAll image list) later := by
  induction list generalizing image with
  | nil => rfl
  | cons x rest ih =>
      rw [List.cons_append, allReports, allReports, ih, List.append_assoc]
      rfl

theorem close_of_isClosed (h : (x.ty.instantiate image).isClosed = true) :
    x.close image = image := by
  funext v
  apply Ty.instantiate_blank_of_apart
  intro w _
  exact Ty.isClosed_iff.mp h w

/-- A loose end that is closed by then makes no difference. -/
theorem allReports_insert_of_isClosed (before after : List LooseEnd)
    (h : (x.ty.instantiate (closeAll image before)).isClosed = true) :
    allReports image (before ++ x :: after) = allReports image (before ++ after) := by
  rw [allReports_append, allReports_append, allReports, close_of_isClosed h, reports, if_pos h,
    List.nil_append]

/-- One that is still open is reported where it stands. -/
theorem allReports_insert_of_open (before after : List LooseEnd)
    (h : (x.ty.instantiate (closeAll image before)).isClosed = false) :
    allReports image (before ++ x :: after) = allReports image before ++
      .ofError (.unresolved x.subject (x.ty.instantiate (closeAll image before))) x.origin ::
        allReports (x.close (closeAll image before)) after := by
  rw [allReports_append, allReports, reports, h]
  rfl

/-- Applying a type after a loose end blanks the variables of that in it. -/
theorem instantiate_close (image : VarId → Ty) (x : LooseEnd) (ty : Ty) :
    ty.instantiate (x.close image) =
      (ty.instantiate image).instantiate (Ty.blank (x.ty.instantiate image).occurs) :=
  (Ty.instantiate_instantiate image _ ty).symm

theorem apart_close (x : LooseEnd) (h : (ty.instantiate image).Apart z) :
    (ty.instantiate (x.close image)).Apart z := by
  intro v hv
  rw [instantiate_close] at hv
  exact h v (Ty.occurs_instantiate_blank.mp hv).1

theorem apart_closeAll (list : List LooseEnd) (h : (ty.instantiate image).Apart z) :
    (ty.instantiate (closeAll image list)).Apart z := by
  induction list generalizing image with
  | nil => exact h
  | cons x rest ih => exact ih (apart_close x h)

/-- Loose ends leave a type alone with which they have no variable in common. -/
theorem instantiate_closeAll_of_apart (hz : z.instantiate image = z) {list : List LooseEnd}
    (h : ∀ x ∈ list, (x.ty.instantiate image).Apart z) :
    z.instantiate (closeAll image list) = z := by
  induction list generalizing image with
  | nil => exact hz
  | cons x rest ih =>
      obtain ⟨hx, hrest⟩ := List.forall_mem_cons.mp h
      apply ih
      · rw [instantiate_close, hz, Ty.instantiate_blank_of_apart hx.symm]
      · intro y hy
        exact apart_close x (hrest y hy)

/-- A loose end where some variables were blanked before. -/
theorem close_blanked (image : VarId → Ty) (hidden : VarId → Bool) (x : LooseEnd) :
    x.close (fun v => (image v).instantiate (Ty.blank hidden)) =
      fun v => (x.close image v).instantiate (Ty.blank hidden) := by
  funext v
  rw [close, close, Ty.instantiate_blank_comm, Ty.instantiate_instantiate image _ x.ty]

/-- Blanking variables that loose ends do not have changes none of their reports. -/
theorem allReports_blanked {list : List LooseEnd}
    (h : ∀ x ∈ list, (x.ty.instantiate image).Apart z) :
    allReports (fun v => (image v).instantiate (Ty.blank z.occurs)) list =
      allReports image list := by
  induction list generalizing image with
  | nil => rfl
  | cons x rest ih =>
      obtain ⟨hx, hrest⟩ := List.forall_mem_cons.mp h
      have hty : x.ty.instantiate (fun v => (image v).instantiate (Ty.blank z.occurs)) =
          x.ty.instantiate image := by
        rw [← Ty.instantiate_instantiate, Ty.instantiate_blank_of_apart hx]
      rw [allReports, allReports, reports, reports, hty, close_blanked]
      exact congrArg _ (ih fun y hy => apart_close x (hrest y hy))

/-- Whatever is blanked, nothing is reported that would not be reported anyway. -/
theorem origins_blanked_sublist (image : VarId → Ty) (hidden : VarId → Bool)
    (list : List LooseEnd) :
    ((allReports (fun v => (image v).instantiate (Ty.blank hidden)) list).map
      Report.origin).Sublist ((allReports image list).map Report.origin) := by
  -- From one loose end to the next the two sides go on to differ by the same blanked
  -- variables, also where only one of them reports.
  induction list generalizing image with
  | nil => exact .slnil
  | cons x rest ih =>
      rw [allReports, allReports, close_blanked, List.map_append, List.map_append]
      apply List.Sublist.append _ (ih _)
      rw [reports, reports, ← Ty.instantiate_instantiate]
      by_cases hclosed : (x.ty.instantiate image).isClosed = true
      · have hblanked :
            ((x.ty.instantiate image).instantiate (Ty.blank hidden)).isClosed = true := by
          apply Ty.isClosed_iff.mpr
          intro v
          by_contra hv
          have hocc := (Ty.occurs_instantiate_blank.mp (Bool.eq_true_of_not_eq_false hv)).1
          rw [Ty.isClosed_iff.mp hclosed v] at hocc
          cases hocc
        rw [if_pos hclosed, if_pos hblanked]
      · rw [if_neg hclosed]
        split
        · exact List.nil_sublist _
        · exact .refl _

/-- An open loose end with variables of its own makes one report more. -/
theorem allReports_insert_of_apart {before after : List LooseEnd}
    (hx : x.ty.instantiate image = x.ty) (hopen : x.ty.isClosed = false)
    (hapart : ∀ y ∈ before ++ after, (y.ty.instantiate image).Apart x.ty) :
    allReports image (before ++ x :: after) = allReports image before ++
      .ofError (.unresolved x.subject x.ty) x.origin ::
        allReports (closeAll image before) after := by
  obtain ⟨hbefore, hafter⟩ := List.forall_mem_append.mp hapart
  have hkept : x.ty.instantiate (closeAll image before) = x.ty :=
    instantiate_closeAll_of_apart hx hbefore
  have hclose : x.close (closeAll image before) =
      fun v => (closeAll image before v).instantiate (Ty.blank x.ty.occurs) := by
    funext v
    rw [close, hkept]
  rw [allReports_insert_of_open before after (hkept.symm ▸ hopen), hkept, hclose]
  rw [allReports_blanked fun y hy => apart_closeAll before (hafter y hy)]

end LooseEnd

/-! ## The end of a session -/

namespace Session

open LooseEnd

variable {s t u : Session}

/-- One session comes from another by tying up loose ends. -/
structure TiesUp (s : Session) (list : List LooseEnd) (t : Session) : Prop where
  acyclic : t.subst.Acyclic
  image : t.subst.image = closeAll s.subst.image list
  reports : t.reports = s.reports ++ allReports s.subst.image list
  exprs : t.exprs = s.exprs

theorem TiesUp.nil (hs : s.subst.Acyclic) : TiesUp s [] s :=
  ⟨hs, rfl, (List.append_nil _).symm, rfl⟩

theorem TiesUp.append {list later : List LooseEnd} (h : TiesUp s list t)
    (h' : TiesUp t later u) : TiesUp s (list ++ later) u where
  acyclic := h'.acyclic
  image := by rw [h'.image, h.image, closeAll, closeAll, closeAll, List.foldl_append]
  reports := by rw [h'.reports, h.reports, h.image, allReports_append, List.append_assoc]
  exprs := h'.exprs.trans h.exprs

theorem TiesUp.of_isClosed (hs : s.subst.Acyclic) {x : LooseEnd}
    (h : (x.ty.instantiate s.subst.image).isClosed = true) : TiesUp s [x] s where
  acyclic := hs
  image := (close_of_isClosed h).symm
  reports := by simp [allReports, LooseEnd.reports, h]
  exprs := rfl

/-- Poisoning blanks the variables of a type in whatever is applied afterwards. -/
theorem exists_poison_image (hs : s.subst.Acyclic) (ty : Ty) :
    ∃ t, s.poison ty = .ok { s with subst := t } ∧ t.Acyclic ∧
      ∀ v, t.image v =
        (s.subst.image v).instantiate (Ty.blank (ty.instantiate s.subst.image).occurs) := by
  obtain ⟨t, hpoison, hgrows⟩ := exists_poison hs ty
  obtain ⟨applied, happly, h⟩ := exists_of_bind_eq_ok hpoison
  obtain ⟨subst, hbind, h⟩ := exists_of_bind_eq_ok h
  cases h
  cases (hs.apply_eq_ok ty).symm.trans happly
  exact ⟨t, hpoison, hgrows.acyclic hs, hs.image_of_foldlM_bind hbind hgrows⟩

theorem exists_tiesUp_reportOpen (hs : s.subst.Acyclic) {x : LooseEnd}
    (h : ¬ (x.ty.instantiate s.subst.image).isClosed = true) :
    ∃ t, s.reportOpen x.subject (x.ty.instantiate s.subst.image) x.origin = .ok t ∧
      TiesUp s [x] t := by
  have hagain : (x.ty.instantiate s.subst.image).instantiate s.subst.image =
      x.ty.instantiate s.subst.image := Subst.Grows.refl.instantiate_image hs x.ty
  obtain ⟨t, hpoison, ht, himage⟩ := exists_poison_image
    (s := s.reportError (.unresolved x.subject (x.ty.instantiate s.subst.image)) x.origin) hs
    (x.ty.instantiate s.subst.image)
  refine ⟨_, hpoison, ht, ?_, ?_, rfl⟩
  · funext v
    have hv := himage v
    rwa [reportError, report, hagain] at hv
  · simp [allReports, LooseEnd.reports, h, reportError, report]

theorem exists_tiesUp_settleObligations (hs : s.subst.Acyclic) (list : List Obligation) :
    ∃ t, list.foldlM settleObligation s = .ok t ∧ TiesUp s (list.map .ofObligation) t := by
  induction list generalizing s with
  | nil => exact ⟨s, rfl, .nil hs⟩
  | cons o rest ih =>
      have hfirst : ∃ t, s.settleObligation o = .ok t ∧ TiesUp s [.ofObligation o] t := by
        rw [settleObligation, apply, hs.apply_eq_ok]
        by_cases hclosed : (o.ty.instantiate s.subst.image).isClosed = true
        · exact ⟨s, if_pos hclosed, .of_isClosed hs hclosed⟩
        · obtain ⟨t, hreport, hties⟩ := exists_tiesUp_reportOpen hs (x := .ofObligation o) hclosed
          exact ⟨t, (if_neg hclosed).trans hreport, hties⟩
      obtain ⟨t, hfirst, hties⟩ := hfirst
      obtain ⟨u, hrest, hties'⟩ := ih hties.acyclic
      refine ⟨u, ?_, hties.append hties'⟩
      rw [List.foldlM_cons, hfirst]
      exact hrest

theorem exists_tiesUp_settleExprs (hs : s.subst.Acyclic) (entries : List (ExprId × Inferred)) :
    ∃ settled t, s.settleExprs entries = .ok (settled, t) ∧
      TiesUp s (entries.map .ofExpr) t := by
  induction entries generalizing s with
  | nil => exact ⟨[], s, rfl, .nil hs⟩
  | cons entry rest ih =>
      obtain ⟨expr, inferred⟩ := entry
      rw [settleExprs, apply, hs.apply_eq_ok]
      by_cases hclosed : (inferred.ty.instantiate s.subst.image).isClosed = true
      · obtain ⟨others, t, hothers, hties⟩ := ih hs
        have hfirst : TiesUp s [.ofExpr (expr, inferred)] s := .of_isClosed hs hclosed
        refine ⟨(expr, { inferred with ty := inferred.ty.instantiate s.subst.image }) :: others, t,
          ?_, hfirst.append hties⟩
        show (if _ then _ else _) = _
        rw [if_pos hclosed, hothers]
        rfl
      · obtain ⟨t, hreport, hfirst⟩ :=
          exists_tiesUp_reportOpen hs (x := .ofExpr (expr, inferred)) hclosed
        obtain ⟨others, u, hothers, hties⟩ := ih hfirst.acyclic
        refine ⟨others, u, ?_, hfirst.append hties⟩
        have hreport : s.reportOpen ("expression " ++ (NodeId.expr expr).text)
            (inferred.ty.instantiate s.subst.image) (.expr expr) = .ok t := hreport
        show (if _ then _ else _) = _
        rw [if_neg hclosed, hreport]
        exact hothers

/-- The diagnostics of ending a session; none if a unit is handed on. -/
def findings (s : Session) : Except Fault (List Diagnostic) := do
  match ← s.finish with
  | .ok _ => .ok []
  | .error diagnostics => .ok diagnostics

/-- What ending a session finds: what was reported, the obligations that are refused, and
the loose ends that are open. -/
theorem findings_eq (hs : s.subst.WellFormed) (hwaits : s.Waits) {kept : List Obligation}
    {refusals : List Report} (htaken : TakenUp s.registry s.subst s.obligations kept refusals) :
    s.findings = .ok ((s.reports ++ refusals ++
      allReports s.subst.image (kept.map .ofObligation ++ s.exprs.entries.map .ofExpr)).map
        Report.toDiagnostic) := by
  obtain ⟨t, hobligations, hties⟩ := exists_tiesUp_settleObligations
    (s := { s with obligations := [], reports := s.reports ++ refusals }) hs.acyclic kept
  obtain ⟨settled, last, hexprs, hties'⟩ := exists_tiesUp_settleExprs hties.acyclic t.exprs.entries
  have hsettle : s.settle = .ok (settled, last) := by
    rw [settle, htaken.dischargeTraits hs hwaits]
    show (kept.foldlM settleObligation _ >>= _) = _
    rw [hobligations]
    exact hexprs
  have hreports := (hties.append hties').reports
  rw [hties.exprs] at hreports
  rw [findings, finish_of_settle hsettle, ← hreports]
  by_cases hnone : last.reports = []
  · simp [bind, Except.bind, hnone]
  · simp [bind, Except.bind, hnone]

/-- No variable of a type is left in an obligation or in the type of an expression. -/
def ApartFrom (s : Session) (ty : Ty) : Prop :=
  (∀ o ∈ s.obligations, (o.ty.instantiate s.subst.image).Apart ty) ∧
    ∀ entry ∈ s.exprs.entries, (entry.2.ty.instantiate s.subst.image).Apart ty

/-- An obligation that is kept waits for a variable that was left in it. -/
theorem TakenUp.apart_of_mem_kept (hs : s.subst.WellFormed) (hwaits : s.Waits)
    {kept : List Obligation} {refusals : List Report}
    (htaken : TakenUp s.registry s.subst s.obligations kept refusals) {ty : Ty}
    (h : ∀ o ∈ s.obligations, (o.ty.instantiate s.subst.image).Apart ty) {o : Obligation}
    (ho : o ∈ kept) : (o.ty.instantiate s.subst.image).Apart ty := by
  obtain ⟨source, hsource, v, hsubject, rfl⟩ := htaken.exists_of_mem_kept ho
  obtain ⟨w, hw⟩ := Ty.exists_of_isVar (hwaits source hsource).1
  have hvar : source.ty.instantiate s.subst.image = .var v := by
    rw [← hsubject, hw, hs.subject_var, Ty.instantiate_var]
  have himage : s.subst.image v = .var v :=
    Subst.image_of_lookup_eq_none (hs.lookup_of_subject hsubject)
  have hapart := h source hsource
  rwa [hvar, ← himage] at hapart

/-- To record the type of one more expression adds one loose end to the others. -/
theorem exists_findings_recordExpr (hs : s.subst.WellFormed) (hwaits : s.Waits) {expr : ExprId}
    (hnew : s.exprs.find? expr = none) (inferred : Inferred) (supply : VarSupply)
    (trace : Option Trace) :
    ∃ found before after,
      s.findings =
        .ok (found ++ (allReports s.subst.image (before ++ after)).map Report.toDiagnostic) ∧
      (recordExpr { s with supply, trace } expr inferred).findings =
        .ok (found ++ (allReports s.subst.image
          (before ++ .ofExpr (expr, inferred) :: after)).map Report.toDiagnostic) ∧
      ∀ ty, s.ApartFrom ty → ∀ x ∈ before ++ after, (x.ty.instantiate s.subst.image).Apart ty := by
  obtain ⟨kept, refusals, htaken, _⟩ := dischargeTraits_eq hs hwaits
  obtain ⟨before, after, hentries, hinsert⟩ := KeyMap.exists_entries_insert hnew inferred
  have hends : kept.map ofObligation ++ s.exprs.entries.map ofExpr =
      (kept.map ofObligation ++ before.map ofExpr) ++ after.map ofExpr := by
    rw [hentries, List.map_append, List.append_assoc]
  have hends' : kept.map ofObligation ++ (s.exprs.insert expr inferred).entries.map ofExpr =
      (kept.map ofObligation ++ before.map ofExpr) ++
        ofExpr (expr, inferred) :: after.map ofExpr := by
    rw [hinsert, List.map_append, List.map_cons, List.append_assoc]
  refine ⟨(s.reports ++ refusals).map Report.toDiagnostic,
    kept.map ofObligation ++ before.map ofExpr, after.map ofExpr, ?_, ?_, ?_⟩
  · rw [← hends, ← List.map_append]
    exact findings_eq hs hwaits htaken
  · rw [← hends', ← List.map_append]
    exact findings_eq (s := recordExpr { s with supply, trace } expr inferred) hs hwaits htaken
  · intro ty hty x hx
    rw [← hends] at hx
    rcases List.mem_append.mp hx with hx | hx
    · obtain ⟨o, ho, rfl⟩ := List.mem_map.mp hx
      exact htaken.apart_of_mem_kept hs hwaits hty.1 ho
    · obtain ⟨entry, hentry, rfl⟩ := List.mem_map.mp hx
      exact hty.2 entry hentry

/-- The diagnostic of an expression whose type is open. -/
def openExpr (expr : ExprId) (ty : Ty) : Diagnostic :=
  (Report.ofError (.unresolved ("expression " ++ (NodeId.expr expr).text) ty)
    (.expr expr)).toDiagnostic

section RecordExpr

variable {expr : ExprId} {ty : Ty} (supply : VarSupply) (trace : Option Trace)

theorem findings_recordExpr_of_isClosed (hs : s.subst.WellFormed) (hwaits : s.Waits)
    (hnew : s.exprs.find? expr = none) (hty : ty.instantiate s.subst.image = ty)
    (hclosed : ty.isClosed = true) :
    (recordExpr { s with supply, trace } expr (.ofTy ty)).findings = s.findings := by
  obtain ⟨found, before, after, hwithout, hwith, _⟩ :=
    exists_findings_recordExpr hs hwaits hnew (.ofTy ty) supply trace
  have hkept : ty.instantiate (closeAll s.subst.image before) = ty :=
    instantiate_closeAll_of_apart hty fun _ _ v _ => Ty.isClosed_iff.mp hclosed v
  have hturn : (ty.instantiate (closeAll s.subst.image before)).isClosed = true := by
    rw [hkept, hclosed]
  rw [hwith, hwithout, allReports_insert_of_isClosed before after hturn]

theorem exists_findings_recordExpr_of_apart (hs : s.subst.WellFormed) (hwaits : s.Waits)
    (hnew : s.exprs.find? expr = none) (hty : ty.instantiate s.subst.image = ty)
    (hopen : ty.isClosed = false) (hapart : s.ApartFrom ty) :
    ∃ early late, s.findings = .ok (early ++ late) ∧
      (recordExpr { s with supply, trace } expr (.ofTy ty)).findings =
        .ok (early ++ openExpr expr ty :: late) := by
  obtain ⟨found, before, after, hwithout, hwith, hends⟩ :=
    exists_findings_recordExpr hs hwaits hnew (.ofTy ty) supply trace
  have hinsert := allReports_insert_of_apart (x := .ofExpr (expr, .ofTy ty)) hty hopen
    (hends ty hapart)
  refine ⟨found ++ (allReports s.subst.image before).map Report.toDiagnostic,
    (allReports (closeAll s.subst.image before) after).map Report.toDiagnostic, ?_, ?_⟩
  · rw [hwithout, allReports_append, List.map_append, List.append_assoc]
  · rw [hwith, hinsert, List.map_append, List.append_assoc]
    rfl

/-- A recorded type makes no difference, or it is open when its turn comes.  Then it is
reported, and of what comes later only the same is reported as without it. -/
theorem findings_recordExpr_cases (hs : s.subst.WellFormed) (hwaits : s.Waits)
    (hnew : s.exprs.find? expr = none) :
    (recordExpr { s with supply, trace } expr (.ofTy ty)).findings = s.findings ∨
      ∃ early late late' left, left.isClosed = false ∧ s.findings = .ok (early ++ late) ∧
        (recordExpr { s with supply, trace } expr (.ofTy ty)).findings =
          .ok (early ++ openExpr expr left :: late') ∧
        (late'.map Diagnostic.origin).Sublist (late.map Diagnostic.origin) := by
  obtain ⟨found, before, after, hwithout, hwith, _⟩ :=
    exists_findings_recordExpr hs hwaits hnew (.ofTy ty) supply trace
  cases hturn : (ty.instantiate (closeAll s.subst.image before)).isClosed with
  | true =>
      left
      rw [hwith, hwithout, allReports_insert_of_isClosed before after hturn]
  | false =>
      right
      have hinsert := allReports_insert_of_open (x := .ofExpr (expr, .ofTy ty)) before after hturn
      refine ⟨found ++ (allReports s.subst.image before).map Report.toDiagnostic,
        (allReports (closeAll s.subst.image before) after).map Report.toDiagnostic,
        (allReports (close (closeAll s.subst.image before) (.ofExpr (expr, .ofTy ty))) after).map
          Report.toDiagnostic, _, hturn, ?_, ?_, ?_⟩
      · rw [hwithout, allReports_append, List.map_append, List.append_assoc]
      · rw [hwith, hinsert, List.map_append, List.append_assoc]
        rfl
      · have hsublist := (origins_blanked_sublist (closeAll s.subst.image before)
          (ty.instantiate (closeAll s.subst.image before)).occurs after).map some
        rw [List.map_map, List.map_map] at hsublist ⊢
        exact hsublist

end RecordExpr

/-- To call what is wrong binds nothing and reports nothing.  The answer is what the
variable that is drawn for it stands for. -/
theorem exists_call_of_error (hs : s.subst.Acyclic) {callee : Ty}
    (hcallee : s.subst.subject callee = .error) (args : List Ty) (origin : NodeId)
    {pool pool' : VarPool} {v : VarId} {drawn : Session}
    (hdraw : s.freshVar pool = .ok (v, drawn, pool')) :
    ∃ trace, s.call pool callee args origin =
      .ok (s.subst.image v, { s with supply := drawn.supply, trace }, pool') := by
  obtain ⟨⟨w, supply, rest⟩, _, h⟩ := exists_of_bind_eq_ok hdraw
  cases h
  have hstored : s.subst.stored callee = .error := by
    rw [Subst.stored, ← Ty.erase_unwrap, ← Subst.subject, hcallee]
    rfl
  have hagreed : s.subst.Agreed callee (.func (Ty.eraseAll args) (.var v)) := by
    rw [Subst.Agreed, hstored]
    exact .errorLeft _
  obtain ⟨t, hunify, ht⟩ := (unified_iff_agreed (s := { s with supply }) hs).mpr hagreed
  obtain ⟨subst, trace, rfl⟩ := frame_unify hunify
  cases ht
  have happly : s.subst.apply (.var v) = .ok (s.subst.image v) := hs.apply_eq_ok (.var v)
  use trace
  rw [call, hdraw]
  show (unify { s with supply } _ _ >>= _) = _
  rw [hunify]
  show (s.subst.apply (.var v) >>= _) = _
  rw [happly]
  rfl

/-- To call what is already wrong makes no report, binds nothing and defers nothing.
If the answer is recorded for a new expression it depends on the answer what the end of
the session finds.  A closed answer makes no difference, and an open one whose variables
nothing else has is reported as an open type, once and beside all that is found without
it.  In any case there is at most this one report of its own: what is found later is about
nodes that are found without it as well. -/
theorem call_of_error_reports_open_answer (hreach : s.Reachable) {callee : Ty}
    (hcallee : s.subst.subject callee = .error) (args : List Ty) (origin : NodeId)
    {expr : ExprId} (hnew : s.exprs.find? expr = none) {pool pool' : VarPool} {v : VarId}
    {drawn : Session} (hdraw : s.freshVar pool = .ok (v, drawn, pool')) :
    ∃ ret t, s.apply (.var v) = .ok ret ∧ s.call pool callee args origin = .ok (ret, t, pool') ∧
      t = { s with supply := drawn.supply, trace := t.trace } ∧
      (ret.isClosed = true → (t.recordExpr expr (.ofTy ret)).findings = s.findings) ∧
      (ret.isClosed = false → s.ApartFrom ret →
        ∃ early late, s.findings = .ok (early ++ late) ∧
          (t.recordExpr expr (.ofTy ret)).findings =
            .ok (early ++ openExpr expr ret :: late)) ∧
      ((t.recordExpr expr (.ofTy ret)).findings = s.findings ∨
        ∃ early late late' ty, ty.isClosed = false ∧ s.findings = .ok (early ++ late) ∧
          (t.recordExpr expr (.ofTy ret)).findings =
            .ok (early ++ openExpr expr ty :: late') ∧
          (late'.map Diagnostic.origin).Sublist (late.map Diagnostic.origin)) := by
  have hs := hreach.wellFormed
  have hwaits := hreach.waits
  have hret : (s.subst.image v).instantiate s.subst.image = s.subst.image v :=
    Subst.Grows.refl.instantiate_image hs.acyclic (.var v)
  obtain ⟨trace, hcall⟩ := exists_call_of_error hs.acyclic hcallee args origin hdraw
  refine ⟨s.subst.image v, _, hs.acyclic.apply_eq_ok (.var v), hcall, rfl, ?_, ?_, ?_⟩
  · exact findings_recordExpr_of_isClosed _ trace hs hwaits hnew hret
  · exact exists_findings_recordExpr_of_apart _ trace hs hwaits hnew hret
  · exact findings_recordExpr_cases _ trace hs hwaits hnew

/-- The call of an unknown name stands between an expression whose type is closed and one
whose type is open. -/
theorem call_of_error_reports_open_answer_unknown :
    ∃ (s t : Session) (early late : List Diagnostic), s.Reachable ∧
    s.subst.subject Symbol.unknown.ty = .error ∧ s.exprs.find? 2 = none ∧
    s.call ⟨0⟩ Symbol.unknown.ty [.num] (.expr 2) = .ok (.var 1, t, ⟨0⟩) ∧ s.ApartFrom (.var 1) ∧
    s.findings = .ok (early ++ late) ∧
    (t.recordExpr 2 (.ofTy (.var 1))).findings = .ok (early ++ openExpr 2 (.var 1) :: late) := by
  have hrun : ∃ (s drawn : Session), s.Reachable ∧ s.subst.subject Symbol.unknown.ty = .error ∧
      s.exprs.find? 2 = none ∧ s.freshVar ⟨0⟩ = .ok (1, drawn, ⟨0⟩) ∧
      s.apply (.var 1) = .ok (.var 1) ∧ s.obligations = [] ∧
      s.exprs.entries.map (fun entry => entry.2.ty.instantiate s.subst.image) =
        [.bool, .func [.var 0] .num] :=
    ⟨_, _, reachable_of_run Registry.builtin { varOffset := some 0 } ⟨0⟩
      [.freshVars 1, .recordExpr 3 (.ofTy (.func [.var 0] .num)), .recordExpr 1 (.ofTy .bool),
       .lookupOrUnknown "f" (.expr 1) none] rfl rfl,
      rfl, rfl, rfl, rfl, rfl, rfl⟩
  obtain ⟨s, drawn, hreach, hcallee, hnew, hdraw, happly, hobligations, hexprs⟩ := hrun
  have hapart : s.ApartFrom (.var 1) := by
    constructor
    · intro o ho
      rw [hobligations] at ho
      cases ho
    · intro entry hentry v hv
      have hmem : entry.2.ty.instantiate s.subst.image ∈ [Ty.bool, .func [.var 0] .num] :=
        hexprs ▸ List.mem_map_of_mem hentry
      rcases List.mem_pair.mp hmem with heq | heq
      · rw [heq] at hv
        cases hv
      · rw [heq] at hv
        have hzero : 0 = v := by simpa [Ty.occurs, Ty.occursAny] using hv
        rw [← hzero]
        rfl
  obtain ⟨ret, t, hret, hcall, _, _, hopen, _⟩ :=
    call_of_error_reports_open_answer hreach hcallee [.num] (.expr 2) hnew hdraw
  cases happly.symm.trans hret
  obtain ⟨early, late, hwithout, hwith⟩ := hopen rfl hapart
  exact ⟨s, t, early, late, hreach, hcallee, hnew, hcall, hapart, hwithout, hwith⟩

/-- After an unknown name was reported its call is reported as well. -/
theorem unknown_callee_reported_again : ∃ (w : Workspace) (s t : Session),
    Workspace.new Registry.builtin { varOffset := some 0 } ⟨0⟩ = .ok w ∧
    w.session.lookupOrUnknown w.table "f" (.expr 1) none = (.unknown, s) ∧ s.Reachable ∧
    s.subst.subject Symbol.unknown.ty = .error ∧ s.exprs.find? 2 = none ∧
    s.call w.pool Symbol.unknown.ty [] (.expr 2) = .ok (.var 0, t, w.pool) ∧
    s.findings = .ok s.diagnostics ∧ s.diagnostics.length = 1 ∧
    (t.recordExpr 2 (.ofTy (.var 0))).findings = .ok (s.diagnostics ++ [openExpr 2 (.var 0)]) :=
  ⟨_, _, _, rfl, rfl, reachable_of_run Registry.builtin { varOffset := some 0 } ⟨0⟩
    [.lookupOrUnknown "f" (.expr 1) none] rfl rfl, rfl, rfl, rfl, rfl, rfl, rfl⟩

end Session

end TypeInference

/-
# No obligation is lost

How often an obligation is reported is said by comparison with the session that
never had it.  While the obligation waits, the two sessions differ in it alone.
When it is taken up and refused they differ in one report, and from then on they
do so for ever: whatever is called, both answer the same.

Together with what is known of sessions that end well, this accounts for every
required trait: it is met in the end, or the session ends with a report.
-/

import TypeInference.Proofs.Session.Frame
import TypeInference.Proofs.Session.Justification

namespace TypeInference

namespace Subst

/-- Variables were bound to `error` and to nothing else. -/
structure Poisons (s t : Subst) : Prop where
  grows : s.Grows t
  lookup : ∀ v, s.lookup v = none → t.lookup v = none ∨ t.lookup v = some .error

theorem Poisons.refl (s : Subst) : s.Poisons s := ⟨.refl, fun _ hv => .inl hv⟩

theorem Poisons.trans {s t u : Subst} (h : s.Poisons t) (h' : t.Poisons u) : s.Poisons u := by
  refine ⟨h.grows.trans h'.grows, fun v hv => ?_⟩
  rcases h.lookup v hv with hopen | herror
  · exact h'.lookup v hopen
  · exact .inr (h'.grows.lookup_eq_some herror)

/-- A subject that waited is not refused after poisoning. -/
theorem Poisons.not_refuses {s t : Subst} (h : s.Poisons t) (hs : s.WellFormed) {ty : Ty}
    (hvar : (s.subject ty).isVar = true) (registry : Registry) (traitName : String) :
    ¬ registry.Refuses traitName (t.subject ty) := by
  obtain ⟨v, hv⟩ := Ty.exists_of_isVar hvar
  rw [h.grows.subject_eq hs, hv, Ty.instantiate_var]
  rcases h.lookup v (hs.lookup_of_subject hv) with hopen | herror
  · rw [image_of_lookup_eq_none hopen]
    exact fun hrefuses => (by cases hrefuses.1)
  · rw [(h.grows.acyclic hs.acyclic).image_of_lookup_eq_some herror]
    exact fun hrefuses => (by cases hrefuses.2.1)

end Subst

namespace Session

variable {s s' t t' : Session} {ty : Ty} {traitName : String} {origin : NodeId}

theorem poisons_poison (hs : s.subst.Acyclic) (h : s.poison ty = .ok s') :
    s.subst.Poisons s'.subst := by
  refine ⟨(delivers_poison hs ty).of_eq_ok h, fun v hv => ?_⟩
  obtain ⟨applied, _, h⟩ := exists_of_bind_eq_ok h
  obtain ⟨subst, hbind, h⟩ := exists_of_bind_eq_ok h
  cases h
  rw [Subst.lookup_of_foldlM_bind_error hbind, hv]
  split
  · exact .inr rfl
  · exact .inl rfl

theorem poisons_settleSymbol (hs : s.subst.Acyclic) {failed : List DeclId} {decl : DeclId}
    {symbol : Symbol} {resolved : ResolvedSymbol}
    (h : s.settleSymbol failed decl symbol = .ok (resolved, s')) : s.subst.Poisons s'.subst := by
  rw [settleSymbol] at h
  split at h
  · cases h
    exact .refl _
  · obtain ⟨answer, _, h⟩ := exists_of_bind_eq_ok h
    cases answer with
    | ok answer =>
        cases h
        exact .refl _
    | error error =>
        obtain ⟨u, hpoison, h⟩ := exists_of_bind_eq_ok h
        cases h
        exact poisons_poison (s := s.report _) hs hpoison

theorem poisons_settleSymbols (hs : s.subst.Acyclic) {failed : List DeclId}
    {entries : List (DeclId × Symbol)} {symbols : List ResolvedSymbol}
    (h : s.settleSymbols failed entries = .ok (symbols, s')) : s.subst.Poisons s'.subst := by
  induction entries generalizing s symbols with
  | nil =>
      cases h
      exact .refl _
  | cons entry rest ih =>
      rw [settleSymbols] at h
      obtain ⟨⟨first, u⟩, hfirst, h⟩ := exists_of_bind_eq_ok h
      obtain ⟨⟨others, w⟩, hothers, h⟩ := exists_of_bind_eq_ok h
      cases h
      have hpoisons := poisons_settleSymbol hs hfirst
      exact hpoisons.trans (ih (hpoisons.grows.acyclic hs) hothers)

theorem poisons_settleAndFile (hs : s.subst.Acyclic) {failed : List DeclId}
    {entries : List (DeclId × Symbol)} {symbols : List ResolvedSymbol}
    (h : s.settleAndFile failed entries = .ok (symbols, s')) : s.subst.Poisons s'.subst := by
  obtain ⟨⟨_, u⟩, hsettle, h⟩ := exists_of_bind_eq_ok h
  cases h
  have hpoisons : s.subst.Poisons u.subst := poisons_settleSymbols hs hsettle
  exact hpoisons

/-- The second session has one report more than the first and is the same otherwise. -/
def OneMore (report : Report) (s t : Session) : Prop :=
  ∃ before after, s.reports = before ++ after ∧
    t = { s with reports := before ++ report :: after }

/-- What does not read reports keeps the difference and answers the same. -/
theorem OneMore.frame {α : Type} {report : Report} (h : OneMore report s t)
    (op : Session → Except Fault (α × Session)) {answer : α}
    (hop : ∀ reports c, op (prepend reports [] c) = (op c).map (Prod.map id (prepend reports [])))
    (ht : op t = .ok (answer, t')) : ∃ s', op s = .ok (answer, s') ∧ OneMore report s' t' := by
  obtain ⟨before, after, hreports, rfl⟩ := h
  have hwith : { s with reports := before ++ report :: after } =
      prepend (before ++ report :: after) [] { s with reports := [] } := by
    simp [prepend]
  have hwithout : s = prepend (before ++ after) [] { s with reports := [] } := by
    simp [prepend, ← hreports]
  rw [hwith, hop] at ht
  obtain ⟨⟨_, c⟩, hc, heq⟩ := exists_of_map_eq_ok ht
  cases heq
  refine ⟨prepend (before ++ after) [] c, ?_, before, after ++ c.reports, ?_, ?_⟩
  · rw [hwithout, hop, hc]
    rfl
  · simp [prepend]
  · simp [prepend]

theorem OneMore.exec {report : Report} {call : Call} {reply : Reply} (h : OneMore report s t)
    (ht : t.exec call = .ok (reply, t')) :
    ∃ s', s.exec call = .ok (reply, s') ∧ OneMore report s' t' :=
  h.frame (fun c => c.exec call) (fun _ c => exec_prepend (fun _ => rfl) c) ht

theorem OneMore.perform {report : Report} {calls : List Call} {replies : List Reply}
    (h : OneMore report s t) (ht : t.perform calls = .ok (replies, t')) :
    ∃ s', s.perform calls = .ok (replies, s') ∧ OneMore report s' t' := by
  induction calls generalizing s t replies with
  | nil =>
      cases ht
      exact ⟨s, rfl, h⟩
  | cons call rest ih =>
      obtain ⟨reply, u, others, hexec, hrest, rfl⟩ := perform_cons_eq_ok_iff.mp ht
      obtain ⟨u', hexec', hu⟩ := h.exec hexec
      obtain ⟨w', hrest', hw⟩ := ih hu hrest
      exact ⟨w', perform_cons_eq_ok_iff.mpr ⟨reply, u', others, hexec', hrest', rfl⟩, hw⟩

theorem OneMore.settle {report : Report} {settled : List (ExprId × Inferred)}
    (h : OneMore report s t) (ht : t.settle = .ok (settled, t')) :
    ∃ s', s.settle = .ok (settled, s') ∧ OneMore report s' t' :=
  h.frame Session.settle settle_prepend ht

/-! ## A session that has one obligation more -/

/-- The second session has one obligation more than the first and is the same
otherwise; the obligation waits for a variable that stands for what `ty` does. -/
def Waiting (ty : Ty) (traitName : String) (origin : NodeId) (s t : Session) : Prop :=
  ∃ (c : Session) (before after : List Obligation) (v : VarId),
    s = c.prepend [] (before ++ after) ∧
    t = c.prepend [] (before ++ ⟨.var v, traitName, origin⟩ :: after) ∧
    c.subst.subject (.var v) = c.subst.subject ty

/-- How an obligation may have been taken up: it was met and is gone, it still
waits and is not refused, or it is refused and has been reported. -/
inductive Outcome (ty : Ty) (traitName : String) (origin : NodeId) (s t : Session) : Prop
  | met (hmeets : t.registry.Meets traitName (t.subst.subject ty)) (h : s = t)
  | waiting (hopen : ¬ t.registry.Refuses traitName (t.subst.subject ty))
      (h : Waiting ty traitName origin s t)
  | refused {subject : Ty} (hrefuses : t.registry.Refuses traitName (t.subst.subject ty))
      (hsubject : t.registry.Refuses traitName subject)
      (h : OneMore (.ofError (.unsatisfied subject traitName) origin) s t)

/-- Every obligation that waits is one more than there would be without it. -/
theorem waiting_of_obligations (hw : t.Waits) {before after : List Obligation} {o : Obligation}
    (h : t.obligations = before ++ o :: after) :
    Waiting o.ty o.traitName o.origin { t with obligations := before ++ after } t := by
  have ho : o ∈ t.obligations := h ▸ List.mem_append_right _ List.mem_cons_self
  obtain ⟨v, hv⟩ := Ty.exists_of_isVar (hw o ho).1
  refine ⟨{ t with obligations := [] }, before, after, v, ?_, ?_, ?_⟩
  · simp [prepend]
  · simp [prepend, ← hv, ← h]
  · rw [hv]

namespace Waiting

theorem reports_eq (h : Waiting ty traitName origin s t) : s.reports = t.reports := by
  obtain ⟨c, before, after, v, rfl, rfl, _⟩ := h
  rfl

/-- What does not read obligations keeps the difference and answers the same. -/
theorem frame {α : Type} (h : Waiting ty traitName origin s t) (hs : t.subst.WellFormed)
    (op : Session → Except Fault (α × Session)) {answer : α}
    (hop : ∀ obligations c,
      op (prepend [] obligations c) = (op c).map (Prod.map id (prepend [] obligations)))
    (hgrows : ∀ c answer c', c.subst.Acyclic → op c = .ok (answer, c') → c.subst.Grows c'.subst)
    (ht : op t = .ok (answer, t')) :
    ∃ s', op s = .ok (answer, s') ∧ Waiting ty traitName origin s' t' := by
  obtain ⟨c, before, after, v, rfl, rfl, hv⟩ := h
  rw [hop] at ht
  obtain ⟨⟨_, c'⟩, hc, heq⟩ := exists_of_map_eq_ok ht
  cases heq
  have hc' : c.subst.Grows c'.subst := hgrows c _ c' hs.acyclic hc
  refine ⟨prepend [] (before ++ after) c', ?_, c', before, after, v, rfl, rfl, ?_⟩
  · rw [hop, hc]
    rfl
  · rw [hc'.subject_eq hs, hc'.subject_eq hs, hv]

theorem exec (h : Waiting ty traitName origin s t) (hs : t.subst.WellFormed) {call : Call}
    {reply : Reply} (hcall : call.command.discharges = false)
    (ht : t.exec call = .ok (reply, t')) :
    ∃ s', s.exec call = .ok (reply, s') ∧ Waiting ty traitName origin s' t' := by
  refine h.frame hs (fun c => c.exec call) (fun _ c => exec_prepend ?_ c) ?_ ht
  · rw [hcall]
    exact fun hfalse => (by cases hfalse)
  · exact fun c _ c' hc hexec => (step_of_exec hexec).grows hc

theorem dischargeTraits (h : Waiting ty traitName origin s t) (hs : t.subst.WellFormed)
    (hw : t.Waits) (ht : t.dischargeTraits = .ok t') :
    ∃ s', s.dischargeTraits = .ok s' ∧
      (t.registry.Meets traitName (t.subst.subject ty) ∧ s' = t' ∨
        (t.subst.subject ty).isVar = true ∧ Waiting ty traitName origin s' t' ∨
        t.registry.Refuses traitName (t.subst.subject ty) ∧
          OneMore (.ofError (.unsatisfied (t.subst.subject ty) traitName) origin) s' t') := by
  obtain ⟨kept, refusals, htaken, heq⟩ := dischargeTraits_eq hs hw
  cases heq.symm.trans ht
  obtain ⟨c, before, after, v, rfl, rfl, hv⟩ := h
  have hs : c.subst.WellFormed := hs
  have hlist : TakenUp c.registry c.subst
      (before ++ (⟨.var v, traitName, origin⟩ :: (after ++ c.obligations))) kept refusals := by
    simpa [prepend] using htaken
  have hwaits : (prepend [] (before ++ after) c).Waits := fun o ho => hw o (by
    simp only [prepend, List.mem_append, List.mem_cons] at ho ⊢
    tauto)
  -- Both sessions do the same with what stands before the obligation and after it, so
  -- that the difference is in what becomes of the obligation itself.
  obtain ⟨first, second, early, late, hbefore, hrest, rfl, rfl⟩ := hlist.exists_of_append
  have hdischarge {others : List Obligation} {refused : List Report}
      (hothers : TakenUp c.registry c.subst (after ++ c.obligations) others refused) :
      (prepend [] (before ++ after) c).dischargeTraits = .ok { c with
        obligations := first ++ others, reports := c.reports ++ (early ++ refused) } := by
    have hall : TakenUp c.registry c.subst ((before ++ after) ++ c.obligations) (first ++ others)
        (early ++ refused) := by
      rw [List.append_assoc]
      exact hbefore.append hothers
    exact TakenUp.dischargeTraits (s := prepend [] (before ++ after) c) hall hs hwaits
  cases hrest with
  | met hmeets hothers =>
      refine ⟨_, hdischarge hothers, .inl ⟨?_, rfl⟩⟩
      rwa [hv] at hmeets
  | @waiting _ w _ others _ hw hothers =>
      refine ⟨_, hdischarge hothers, .inr (.inl ⟨?_, ?_⟩)⟩
      · show (c.subst.subject ty).isVar = true
        rw [← hv, hw]
        rfl
      · refine ⟨{ c with obligations := [], reports := c.reports ++ (early ++ late) },
          first, others, w, ?_, ?_, ?_⟩
        · simp [prepend]
        · simp [prepend]
        · show c.subst.subject (.var w) = c.subst.subject ty
          rw [hs.subject_var, Subst.image_of_lookup_eq_none (hs.lookup_of_subject hw), ← hv, hw]
  | @refused _ _ _ others hrefuses hothers =>
      rw [hv] at hrefuses
      refine ⟨_, hdischarge hothers, .inr (.inr ⟨hrefuses, c.reports ++ early, others, ?_, ?_⟩)⟩
      · exact (List.append_assoc _ _ _).symm
      · simp [prepend, hv]

theorem reconcileAll (h : Waiting ty traitName origin s t) (hs : t.subst.WellFormed)
    {pool pool' : VarPool} {entries : List (DeclId × Symbol)} {failed : List DeclId}
    (ht : t.reconcileAll pool entries = .ok (failed, t', pool')) :
    ∃ s', s.reconcileAll pool entries = .ok (failed, s', pool') ∧
      Waiting ty traitName origin s' t' := by
  obtain ⟨c, before, after, v, rfl, rfl, hv⟩ := h
  rw [reconcileAll_prepend] at ht
  obtain ⟨⟨_, c', _⟩, hc, heq⟩ := exists_of_map_eq_ok ht
  cases heq
  have hgrows : c.subst.Grows c'.subst :=
    (delivers_reconcileAll (s := c) hs.acyclic pool entries).of_eq_ok hc
  refine ⟨prepend [] (before ++ after) c', ?_, c', before, after, v, rfl, rfl, ?_⟩
  · rw [reconcileAll_prepend, hc]
    rfl
  · rw [hgrows.subject_eq hs, hgrows.subject_eq hs, hv]

end Waiting

/-- Closing a scope in its three stages. -/
theorem exec_closeScope_eq_ok_iff {declarations : Declarations} {table : SymbolTable}
    {pool : VarPool} {reply : Reply} :
    s.exec ⟨declarations, table, pool, .closeScope⟩ = .ok (reply, s') ↔
      ∃ scope outer failed u pool' w symbols, table.pop? = some (scope, outer) ∧
        s.reconcileAll pool scope.symbols.entries = .ok (failed, u, pool') ∧
        u.dischargeTraits = .ok w ∧
        w.settleAndFile failed scope.symbols.entries = .ok (symbols, s') ∧
        reply = .closed symbols := by
  constructor
  · intro h
    obtain ⟨⟨_, _⟩, hexec, h⟩ := exists_of_bind_eq_ok h
    cases h
    obtain ⟨⟨_, _, _, _⟩, hclose, h⟩ := exists_of_bind_eq_ok hexec
    cases h
    rw [closeScope] at hclose
    split at hclose
    · cases hclose
    · rename_i scope outer hpop
      obtain ⟨⟨_, _, _⟩, hscope, h⟩ := exists_of_bind_eq_ok hclose
      cases h
      obtain ⟨⟨failed, u, pool'⟩, hreconcile, hscope⟩ := exists_of_bind_eq_ok hscope
      obtain ⟨w, hdischarge, hscope⟩ := exists_of_bind_eq_ok hscope
      obtain ⟨⟨symbols, x⟩, hsymbols, hscope⟩ := exists_of_bind_eq_ok hscope
      cases hscope
      refine ⟨scope, _, failed, u, _, w, _, hpop, hreconcile, hdischarge, ?_, rfl⟩
      rw [settleAndFile, hsymbols]
      rfl
  · rintro ⟨scope, outer, failed, u, pool', w, symbols, hpop, hreconcile, hdischarge, hsettle, rfl⟩
    obtain ⟨⟨_, x⟩, hsymbols, h⟩ := exists_of_bind_eq_ok hsettle
    cases h
    simp [exec, Workspace.exec, closeScope, settleScope, hpop, hreconcile, hdischarge, hsymbols,
      bind, Except.bind]

namespace Waiting

/-- A call that takes up obligations decides an obligation unless it still waits. -/
theorem exec_discharging (h : Waiting ty traitName origin s t) (hreach : t.Reachable) {call : Call}
    {reply : Reply} (hcall : call.command.discharges = true)
    (ht : t.exec call = .ok (reply, t')) :
    ∃ s', s.exec call = .ok (reply, s') ∧ Outcome ty traitName origin s' t' := by
  have hs := hreach.wellFormed
  obtain ⟨declarations, table, pool, command⟩ := call
  cases command with
  | dischargeTraits =>
      obtain ⟨⟨_, _⟩, hexec, ht⟩ := exists_of_bind_eq_ok ht
      cases ht
      obtain ⟨u, hdischarge, hexec⟩ := exists_of_bind_eq_ok hexec
      cases hexec
      obtain ⟨s', hs', houtcome⟩ := h.dischargeTraits hs hreach.waits hdischarge
      obtain ⟨_, _, rfl⟩ := frame_dischargeTraits hdischarge
      refine ⟨s', ?_, ?_⟩
      · simp [Session.exec, Workspace.exec, hs', bind, Except.bind]
      · rcases houtcome with ⟨hmeets, heq⟩ | ⟨hvar, hwaiting⟩ | ⟨hrefuses, hone⟩
        · exact .met hmeets heq
        · refine .waiting (fun hrefuses => ?_) hwaiting
          cases hvar.symm.trans hrefuses.1
        · exact .refused hrefuses hrefuses hone
  | closeScope =>
      have hregistry := registry_exec ht
      obtain ⟨scope, outer, failed, u, pool', w, symbols, hpop, hreconcile, hdischarge, hsettle,
        rfl⟩ := exec_closeScope_eq_ok_iff.mp ht
      obtain ⟨s₁, hs₁, hwaiting⟩ := h.reconcileAll hs hreconcile
      have hacts := (acts_reconcileAll inherited_true (fun _ _ => trivial) hreconcile).1
      have hu := (hacts.grows hs.acyclic).wellFormed hs
      have hregistry : u.registry = t'.registry := by rw [hregistry, hacts.advances.registry]
      have huw := hacts.waits hs hreach.waits
      obtain ⟨s₂, hs₂, houtcome⟩ := hwaiting.dischargeTraits hu huw hdischarge
      have hsame : w.subst = u.subst := (delivers_dischargeTraits hu.acyclic).of_eq_ok hdischarge
      have hw : w.subst.WellFormed := hsame.symm ▸ hu
      -- Symbols are settled after obligations.  This may still bind the variable that is
      -- waited for, but only to `error`, which has every trait.
      have hpoisons : u.subst.Poisons t'.subst := hsame ▸ poisons_settleAndFile hw.acyclic hsettle
      have hexec {s' : Session} (hs' : s₂.settleAndFile failed scope.symbols.entries =
          .ok (symbols, s')) : s.exec ⟨declarations, table, pool, .closeScope⟩ =
          .ok (.closed symbols, s') :=
        exec_closeScope_eq_ok_iff.mpr
          ⟨scope, outer, failed, s₁, pool', s₂, symbols, hpop, hs₁, hs₂, hs', rfl⟩
      rw [hregistry] at houtcome
      rcases houtcome with ⟨hmeets, rfl⟩ | ⟨hvar, hwaiting⟩ | ⟨hrefuses, hone⟩
      · exact ⟨t', hexec hsettle, .met (hmeets.grows hpoisons.grows hu) rfl⟩
      · obtain ⟨s', hs', hwaiting⟩ := hwaiting.frame hw (fun c => c.settleAndFile failed _)
          (fun obligations c => settleAndFile_prepend [] obligations c failed _)
          (fun c _ c' hc hc' => (poisons_settleAndFile hc hc').grows) hsettle
        exact ⟨s', hexec hs', .waiting (hpoisons.not_refuses hu hvar _ _) hwaiting⟩
      · obtain ⟨s', hs', hone⟩ := hone.frame (fun c => c.settleAndFile failed _)
          (fun reports c => settleAndFile_prepend reports [] c failed _) hsettle
        exact ⟨s', hexec hs', .refused (hrefuses.grows hpoisons.grows hu) hrefuses hone⟩
  | _ => cases hcall

/-- An obligation waits as long as none are taken up, and as long as the type is
still a variable. -/
theorem perform (h : Waiting ty traitName origin s t) (hreach : t.Reachable) {calls : List Call}
    {replies : List Reply} (ht : t.perform calls = .ok (replies, t'))
    (hstays : (∀ call ∈ calls, call.command.discharges = false) ∨
      (t'.subst.subject ty).isVar = true) :
    ∃ s', s.perform calls = .ok (replies, s') ∧ Waiting ty traitName origin s' t' := by
  induction calls generalizing s t replies with
  | nil =>
      cases ht
      exact ⟨s, rfl, h⟩
  | cons call rest ih =>
      obtain ⟨reply, u, others, hexec, hrest, rfl⟩ := perform_cons_eq_ok_iff.mp ht
      have hu : u.Reachable := hreach.later (.single (step_of_exec hexec))
      have hstep : ∃ u', s.exec call = .ok (reply, u') ∧ Waiting ty traitName origin u' u := by
        by_cases hcall : call.command.discharges = true
        · have hvar : (u.subst.subject ty).isVar = true := by
            rcases hstays with hquiet | hvar
            · rw [hquiet call List.mem_cons_self] at hcall
              cases hcall
            · exact ((later_of_perform hrest).grows hu.wellFormed.acyclic).isVar_of_subject
                hu.wellFormed hvar
          obtain ⟨u', hu', houtcome⟩ := h.exec_discharging hreach hcall hexec
          cases houtcome with
          | met hmeets _ => cases hvar.symm.trans hmeets.1
          | waiting _ hwaiting => exact ⟨u', hu', hwaiting⟩
          | refused hrefuses _ _ => cases hvar.symm.trans hrefuses.1
        · exact h.exec hreach.wellFormed (Bool.eq_false_iff.mpr hcall) hexec
      obtain ⟨u', hu', hwaiting⟩ := hstep
      have hstays' : (∀ call ∈ rest, call.command.discharges = false) ∨
          (t'.subst.subject ty).isVar = true :=
        hstays.imp_left fun hquiet call hcall => hquiet call (List.mem_cons_of_mem _ hcall)
      obtain ⟨w', hw', hwaiting'⟩ := ih hwaiting hu hrest hstays'
      exact ⟨w', perform_cons_eq_ok_iff.mpr ⟨reply, u', others, hu', hw', rfl⟩, hwaiting'⟩

/-- Discharging reports an obligation that is refused by then. -/
theorem dischargeTraits_of_refuses (h : Waiting ty traitName origin s t) (hreach : t.Reachable)
    (hrefuses : t.registry.Refuses traitName (t.subst.subject ty))
    (ht : t.dischargeTraits = .ok t') :
    ∃ s', s.dischargeTraits = .ok s' ∧
      OneMore (.ofError (.unsatisfied (t.subst.subject ty) traitName) origin) s' t' := by
  obtain ⟨s', hs', houtcome⟩ := h.dischargeTraits hreach.wellFormed hreach.waits ht
  rcases houtcome with ⟨hmeets, _⟩ | ⟨hvar, _⟩ | ⟨_, hone⟩
  · exact absurd hrefuses hmeets.not_refuses
  · cases hvar.symm.trans hrefuses.1
  · exact ⟨s', hs', hone⟩

/-- The end of a session reports an obligation that is refused by then. -/
theorem settle (h : Waiting ty traitName origin s t) (hreach : t.Reachable)
    {settled : List (ExprId × Inferred)}
    (hrefuses : t.registry.Refuses traitName (t.subst.subject ty))
    (ht : t.settle = .ok (settled, t')) :
    ∃ s', s.settle = .ok (settled, s') ∧
      OneMore (.ofError (.unsatisfied (t.subst.subject ty) traitName) origin) s' t' := by
  obtain ⟨u, hdischarge, ht⟩ := exists_of_bind_eq_ok ht
  obtain ⟨u', hu', hone⟩ := h.dischargeTraits_of_refuses hreach hrefuses hdischarge
  obtain ⟨s', hs', hone⟩ := hone.frame settleRest settleRest_prepend ht
  refine ⟨s', ?_, hone⟩
  rw [Session.settle, hu']
  exact hs'

end Waiting

theorem step_of_requireTrait {outcome : Except TypeError Unit}
    (h : s.requireTrait ty traitName origin = .ok (outcome, s')) : Step s s' := by
  have hexec : s.exec ⟨.empty, .new, ⟨0⟩, .requireTrait ty traitName origin⟩ =
      .ok (.outcome outcome, s') := by
    rw [exec, Workspace.exec, h]
    rfl
  exact step_of_exec hexec

theorem step_of_binary {operator : Operator} {lhs rhs inferred : Inferred}
    (h : s.binary operator lhs rhs origin = .ok (inferred, s')) : Step s s' := by
  have hexec : s.exec ⟨.empty, .new, ⟨0⟩, .binary operator lhs rhs origin⟩ =
      .ok (.inferred inferred, s') := by
    rw [exec, Workspace.exec, h]
    rfl
  exact step_of_exec hexec

/-- The second session has a report once more than the first, and whatever is
called it stays so: both answer the same, also when they are ended. -/
def ReportedOnce (report : Report) (s t : Session) : Prop :=
  OneMore report s t ∧ ∀ calls replies t', t.perform calls = .ok (replies, t') →
    ∃ s', s.perform calls = .ok (replies, s') ∧ OneMore report s' t' ∧
      ∀ settled last', t'.settle = .ok (settled, last') →
        ∃ last, s'.settle = .ok (settled, last) ∧ OneMore report last last'

theorem OneMore.reportedOnce {report : Report} (h : OneMore report s t) :
    ReportedOnce report s t := by
  refine ⟨h, fun calls replies t' ht => ?_⟩
  obtain ⟨s', hs', hone⟩ := h.perform ht
  exact ⟨s', hs', hone, fun settled last' hlast => hone.settle hlast⟩

/-- The second session has an obligation that the first has not, and nothing has
been reported for it.  When obligations are taken up next and it is refused, it is
reported once, with the node that it was deferred for: when they are discharged, by
any call that takes them up, and at the end of the session. -/
structure ReportedNext (o : Obligation) (s t : Session) : Prop where
  reports_eq : s.reports = t.reports
  discharge : ∃ t', t.dischargeTraits = .ok t' ∧
    (t.registry.Refuses o.traitName (t.subst.subject o.ty) →
      ∃ s', s.dischargeTraits = .ok s' ∧
        ReportedOnce (.ofError (.unsatisfied (t.subst.subject o.ty) o.traitName) o.origin) s' t')
  call : ∀ call reply t', call.command.discharges = true → t.exec call = .ok (reply, t') →
    t'.registry.Refuses o.traitName (t'.subst.subject o.ty) →
    ∃ s' subject, s.exec call = .ok (reply, s') ∧ t'.registry.Refuses o.traitName subject ∧
      ReportedOnce (.ofError (.unsatisfied subject o.traitName) o.origin) s' t'
  settle : ∃ settled last', t.settle = .ok (settled, last') ∧
    (t.registry.Refuses o.traitName (t.subst.subject o.ty) →
      ∃ last, s.settle = .ok (settled, last) ∧
        OneMore (.ofError (.unsatisfied (t.subst.subject o.ty) o.traitName) o.origin) last last')

theorem Waiting.reportedNext {o : Obligation} (h : Waiting o.ty o.traitName o.origin s t)
    (hreach : t.Reachable) : ReportedNext o s t where
  reports_eq := h.reports_eq
  discharge := by
    obtain ⟨_, _, _, hdischarge⟩ := dischargeTraits_eq hreach.wellFormed hreach.waits
    refine ⟨_, hdischarge, fun hrefuses => ?_⟩
    obtain ⟨s', hs', hone⟩ := h.dischargeTraits_of_refuses hreach hrefuses hdischarge
    exact ⟨s', hs', hone.reportedOnce⟩
  call := by
    intro call reply t' hcall hexec hrefuses
    obtain ⟨s', hs', houtcome⟩ := h.exec_discharging hreach hcall hexec
    cases houtcome with
    | met hmeets _ => exact absurd hrefuses hmeets.not_refuses
    | waiting hopen _ => exact absurd hrefuses hopen
    | @refused subject _ hsubject hone => exact ⟨s', subject, hs', hsubject, hone.reportedOnce⟩
  settle := by
    obtain ⟨settled, last', hsettle, _⟩ := exists_settle hreach.wellFormed hreach.waits
    exact ⟨settled, last', hsettle, fun hrefuses => h.settle hreach hrefuses hsettle⟩

/-- No required trait is lost.

In a session that ends with a unit, whatever was called in between, every trait is
justified that `requireTrait` was asked for and did not refuse, that an operator
required of its left operand, or that waited as an obligation.

An obligation that waits is compared with the session that does not have it.  As
long as its type is a variable the two sessions do the same.  The type may then be
bound; the next time that obligations are taken up, and only then, it is reported
if it is refused. -/
theorem required_traits_accounted_for (hreach : s.Reachable) :
    (∀ ty traitName origin s₁ calls replies s₂ last,
      s.requireTrait ty traitName origin = .ok (.ok (), s₁) →
      s₁.perform calls = .ok (replies, s₂) → s₂.EndsWell last → last.Justified traitName ty) ∧
    (∀ operator lhs rhs origin inferred traitName s₁ calls replies s₂ last,
      operator.trait? = some traitName → s.binary operator lhs rhs origin = .ok (inferred, s₁) →
      s₁.perform calls = .ok (replies, s₂) → s₂.EndsWell last → last.Justified traitName lhs.ty) ∧
    (∀ o ∈ s.obligations, ∀ calls replies s₂ last,
      s.perform calls = .ok (replies, s₂) → s₂.EndsWell last → last.Justified o.traitName o.ty) ∧
    (∀ ty traitName origin s₁ v, s.subst.subject ty = .var v →
      s.requireTrait ty traitName origin = .ok (.ok (), s₁) → s₁ = s.defer v traitName origin) ∧
    (∀ before o after early replies s₁ late replies' s₂, s.obligations = before ++ o :: after →
      s.perform early = .ok (replies, s₁) → (s₁.subst.subject o.ty).isVar = true →
      (∀ call ∈ late, call.command.discharges = false) → s₁.perform late = .ok (replies', s₂) →
      ∃ t₁ t₂, { s with obligations := before ++ after }.perform early = .ok (replies, t₁) ∧
        t₁.perform late = .ok (replies', t₂) ∧ ReportedNext o t₂ s₂) := by
  have hs := hreach.wellFormed
  refine ⟨?_, ?_, ?_, ?_, ?_⟩
  · intro ty traitName origin s₁ calls replies s₂ last hrequire hcalls hends
    have hreach₁ : s₁.Reachable := hreach.later (.single (step_of_requireTrait hrequire))
    refine hends.justified (hreach₁.later (later_of_perform hcalls)) ?_
    exact held_perform hcalls hreach₁ fun _ => held_of_requireTrait hs hrequire
  · intro operator lhs rhs origin inferred traitName s₁ calls replies s₂ last htrait hbinary hcalls
      hends
    have hreach₁ : s₁.Reachable := hreach.later (.single (step_of_binary hbinary))
    refine hends.justified (hreach₁.later (later_of_perform hcalls)) ?_
    exact held_perform hcalls hreach₁ (held_of_binary hs htrait hbinary)
  · intro o ho calls replies s₂ last hcalls hends
    refine hends.justified (hreach.later (later_of_perform hcalls)) ?_
    exact held_perform hcalls hreach fun _ => .inr ⟨o, ho, rfl, rfl⟩
  · intro ty traitName origin s₁ v hv hrequire
    rcases requireTrait_cases hs (contains_of_requireTrait hrequire) ty origin with
      ⟨hmeets, _⟩ | ⟨w, hw, heq⟩ | ⟨hrefuses, _⟩
    · rw [hv] at hmeets
      cases hmeets.1
    · cases heq.symm.trans hrequire
      cases hw.symm.trans hv
      rfl
    · rw [hv] at hrefuses
      cases hrefuses.1
  · intro before o after early replies s₁ late replies' s₂ hobligations hearly hvar hquiet hlate
    have hreach₁ := hreach.later (later_of_perform hearly)
    have hreach₂ := hreach₁.later (later_of_perform hlate)
    have hwaiting := waiting_of_obligations hreach.waits hobligations
    obtain ⟨t₁, ht₁, hwaiting₁⟩ := hwaiting.perform hreach hearly (.inr hvar)
    obtain ⟨t₂, ht₂, hwaiting₂⟩ := hwaiting₁.perform hreach₁ hlate (.inl hquiet)
    exact ⟨t₁, t₂, ht₁, ht₂, hwaiting₂.reportedNext hreach₂⟩

/-- A trait that strings do not have is required of a variable, which then turns
out to be a string. -/
theorem required_traits_accounted_for_string : ∃ s s₁ s₂ t₂ : Session, s.Reachable ∧
    s.obligations = [⟨.var 0, arithmetic, .expr 5⟩] ∧
    s.exec ⟨.empty, .new, ⟨0⟩, .unify (.var 0) .str⟩ = .ok (.outcome (.ok ()), s₁) ∧
    s₁.exec ⟨.empty, .new, ⟨0⟩, .dischargeTraits⟩ = .ok (.done, s₂) ∧
    s₂.reports = [.ofError (.unsatisfied .str arithmetic) (.expr 5)] ∧
    ReportedOnce (.ofError (.unsatisfied .str arithmetic) (.expr 5)) t₂ s₂ := by
  have hrun : ∃ s s₁ s₂ : Session, s.Reachable ∧
      s.obligations = [⟨.var 0, arithmetic, .expr 5⟩] ∧
      (s.subst.subject (.var 0)).isVar = true ∧
      s.exec ⟨.empty, .new, ⟨0⟩, .unify (.var 0) .str⟩ = .ok (.outcome (.ok ()), s₁) ∧
      s₁.exec ⟨.empty, .new, ⟨0⟩, .dischargeTraits⟩ = .ok (.done, s₂) ∧
      s₁.dischargeTraits = .ok s₂ ∧ s₁.subst.subject (.var 0) = .str ∧
      s₁.registry.Refuses arithmetic .str ∧
      s₂.reports = [.ofError (.unsatisfied .str arithmetic) (.expr 5)] :=
    ⟨_, _, _, reachable_of_run Registry.builtin { varOffset := some 0 } ⟨0⟩
      [.freshVars 1, .requireTrait (.var 0) arithmetic (.expr 5)] rfl rfl,
      rfl, rfl, rfl, rfl, rfl, rfl, ⟨rfl, rfl, rfl⟩, rfl⟩
  obtain ⟨s, s₁, s₂, hreach, hobligations, hvar, hunify, hexec, hdischarge, hsubject, hrefuses,
    hreports⟩ := hrun
  obtain ⟨_, _, _, _, hreported⟩ := required_traits_accounted_for hreach
  have hlate : s.perform [⟨.empty, .new, ⟨0⟩, .unify (.var 0) .str⟩] =
      .ok ([.outcome (.ok ())], s₁) :=
    perform_cons_eq_ok_iff.mpr ⟨_, _, _, hunify, rfl, rfl⟩
  obtain ⟨_, t₁, _, _, hnext⟩ := hreported [] _ [] [] [] s _ _ s₁ hobligations rfl hvar
    (fun call hcall => List.mem_singleton.mp hcall ▸ rfl) hlate
  obtain ⟨_, hsame, honce⟩ := hnext.discharge
  cases hdischarge.symm.trans hsame
  rw [hsubject] at honce
  obtain ⟨t₂, _, hone⟩ := honce hrefuses
  exact ⟨s, s₁, s₂, t₂, hreach, hobligations, hunify, hexec, hreports, hone⟩

end Session

end TypeInference

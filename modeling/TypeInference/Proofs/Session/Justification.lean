/-
# Required traits are met in the end

A trait that was required without a refusal is met, or an obligation for it
waits.  Every operation keeps this as long as nothing is reported, and so a
session that ends with a unit has met every trait that was required of it.
-/

import TypeInference.Proofs.Session.Settlement

namespace TypeInference

namespace Session

variable {s s' : Session} {ty : Ty} {traitName : String} {origin : NodeId}

/-- Carry out calls in order. -/
def perform (s : Session) : List Call → Except Fault (List Reply × Session)
  | [] => .ok ([], s)
  | call :: rest => do
      let (reply, s) ← s.exec call
      let (replies, s) ← s.perform rest
      .ok (reply :: replies, s)

section Perform

variable {calls : List Call} {replies : List Reply}

/-- The first call and then the others. -/
theorem perform_cons_eq_ok_iff {call : Call} :
    s.perform (call :: calls) = .ok (replies, s') ↔
      ∃ reply t others, s.exec call = .ok (reply, t) ∧ t.perform calls = .ok (others, s') ∧
        replies = reply :: others := by
  constructor
  · intro h
    obtain ⟨⟨reply, t⟩, hexec, h⟩ := exists_of_bind_eq_ok h
    obtain ⟨⟨others, u⟩, hrest, h⟩ := exists_of_bind_eq_ok h
    cases h
    exact ⟨reply, t, others, hexec, hrest, rfl⟩
  · rintro ⟨reply, t, others, hexec, hrest, rfl⟩
    rw [perform, hexec]
    show (t.perform calls >>= _) = _
    rw [hrest]
    rfl

theorem later_of_perform (h : s.perform calls = .ok (replies, s')) : Later s s' := by
  induction calls generalizing s replies with
  | nil =>
      cases h
      exact .refl
  | cons call rest ih =>
      obtain ⟨reply, t, others, hexec, hrest, rfl⟩ := perform_cons_eq_ok_iff.mp h
      exact .head (step_of_exec hexec) (ih hrest)

theorem reports_perform (h : s.perform calls = .ok (replies, s')) : s.reports <+: s'.reports := by
  induction calls generalizing s replies with
  | nil =>
      cases h
      exact List.prefix_rfl
  | cons call rest ih =>
      obtain ⟨reply, t, others, hexec, hrest, rfl⟩ := perform_cons_eq_ok_iff.mp h
      exact (reports_exec hexec).trans (ih hrest)

end Perform

/-- A required trait is met, or an obligation for it waits. -/
def Held (s : Session) (traitName : String) (ty : Ty) : Prop :=
  s.registry.Meets traitName (s.subst.subject ty) ∨
    ∃ o ∈ s.obligations, o.traitName = traitName ∧ s.subst.subject o.ty = s.subst.subject ty

/-- Growth of the substitution keeps a required trait held while obligations stay. -/
theorem Held.grows (h : s.Held traitName ty) (hs : s.subst.WellFormed)
    (hgrows : s.subst.Grows s'.subst) (hregistry : s'.registry = s.registry)
    (hobligations : ∀ o ∈ s.obligations, o ∈ s'.obligations) : s'.Held traitName ty := by
  rcases h with hmeets | ⟨o, ho, htrait, hsubject⟩
  · exact .inl (hregistry ▸ hmeets.grows hgrows hs)
  · refine .inr ⟨o, hobligations o ho, htrait, ?_⟩
    rw [hgrows.subject_eq hs, hsubject, ← hgrows.subject_eq hs]

/-- A trait that was required without a refusal is held. -/
theorem held_of_requireTrait (hs : s.subst.WellFormed)
    (h : s.requireTrait ty traitName origin = .ok (.ok (), s')) : s'.Held traitName ty := by
  rcases requireTrait_cases hs (contains_of_requireTrait h) ty origin with
    ⟨hmeets, heq⟩ | ⟨v, hsubject, heq⟩ | ⟨_, heq⟩
  · cases heq.symm.trans h
    exact .inl hmeets
  · cases heq.symm.trans h
    refine .inr ⟨_, List.mem_append_right _ List.mem_cons_self, rfl, ?_⟩
    show s.subst.subject (.var v) = s.subst.subject ty
    rw [hs.subject_var, Subst.image_of_lookup_eq_none (hs.lookup_of_subject hsubject), hsubject]
  · cases heq.symm.trans h

theorem Act.held {given : Ty → Prop} (h : Act given s s') (hs : s.subst.WellFormed)
    (hw : s.Waits) (hheld : s.Held traitName ty) (hnone : s'.reports = []) :
    s'.Held traitName ty := by
  have hgrows := h.grows hs.acyclic
  have hregistry := h.advances.registry
  cases h with
  | draw | retrace | report | file => exact hheld.grows hs hgrows hregistry fun _ ho => ho
  | unify _ _ h =>
      obtain ⟨_, _, rfl⟩ := frame_unify h
      exact hheld.grows hs hgrows hregistry fun _ ho => ho
  | poison _ h =>
      obtain ⟨_, rfl⟩ := frame_poison h
      exact hheld.grows hs hgrows hregistry fun _ ho => ho
  | requireTrait h =>
      rcases requireTrait_cases hs (contains_of_requireTrait h) _ _ with
        ⟨_, heq⟩ | ⟨v, _, heq⟩ | ⟨_, heq⟩
      · cases heq.symm.trans h
        exact hheld
      · cases heq.symm.trans h
        exact hheld.grows hs hgrows hregistry fun _ ho => List.mem_append_left _ ho
      · cases heq.symm.trans h
        exact hheld
  | dischargeTraits h =>
      obtain ⟨kept, refusals, htaken, heq⟩ := dischargeTraits_eq hs hw
      cases heq.symm.trans h
      rcases hheld with hmeets | ⟨o, ho, rfl, hsubject⟩
      · exact .inl hmeets
      rcases htaken.cases_of_mem ho with hmeets | ⟨v, hv, hkept⟩ | hrefused
      · exact .inl (hsubject ▸ hmeets)
      · refine .inr ⟨_, hkept, rfl, ?_⟩
        show s.subst.subject (.var v) = s.subst.subject ty
        rw [hs.subject_var, Subst.image_of_lookup_eq_none (hs.lookup_of_subject hv), ← hsubject, hv]
      · rw [(List.append_eq_nil_iff.mp hnone).2] at hrefused
        cases hrefused

theorem Acts.held {given : Ty → Prop} (h : Acts given s s') (hs : s.subst.WellFormed)
    (hw : s.Waits) (hheld : s.Held traitName ty) (hnone : s'.reports = []) :
    s'.Held traitName ty := by
  induction h with
  | refl => exact hheld
  | tail hacts hact ih =>
      have hmiddle := (Acts.grows hacts hs.acyclic).wellFormed hs
      have hbefore := ih (hact.advances.reports_eq_nil hnone)
      exact hact.held hmiddle (Acts.waits hacts hs hw) hbefore hnone

theorem held_exec {call : Call} {reply : Reply} (h : s.exec call = .ok (reply, s'))
    (hreach : s.Reachable) (hheld : s.Held traitName ty) (hnone : s'.reports = []) :
    s'.Held traitName ty := by
  refine (acts_of_call h).held ?_ ?_ ?_ hnone
  · rw [subst_recordedBy]
    exact hreach.wellFormed
  · rw [Waits, obligations_recordedBy, registry_recordedBy]
    exact hreach.waits
  · rwa [Held, registry_recordedBy, subst_recordedBy, obligations_recordedBy]

/-- A trait that is held is held for ever, unless something is reported. -/
theorem held_perform {calls : List Call} {replies : List Reply}
    (h : s.perform calls = .ok (replies, s')) (hreach : s.Reachable)
    (hheld : s.reports = [] → s.Held traitName ty) (hnone : s'.reports = []) :
    s'.Held traitName ty := by
  induction calls generalizing s replies with
  | nil =>
      cases h
      exact hheld hnone
  | cons call rest ih =>
      obtain ⟨reply, t, others, hexec, hrest, rfl⟩ := perform_cons_eq_ok_iff.mp h
      have hbefore : t.reports = [] → s.reports = [] := fun hnone =>
        List.prefix_nil.mp (hnone ▸ reports_exec hexec)
      exact ih hrest (hreach.later (.single (step_of_exec hexec))) fun hnone =>
        held_exec hexec hreach (hheld (hbefore hnone)) hnone

/-- An operator with a trait makes its operands agree and then requires the trait of the
left one, unless it reports. -/
theorem exists_of_binary {operator : Operator} {lhs rhs inferred : Inferred}
    (htrait : operator.trait? = some traitName)
    (h : s.binary operator lhs rhs origin = .ok (inferred, s')) (hnone : s'.reports = []) :
    ∃ t, s.unify lhs.ty rhs.ty = .ok (.ok (), t) ∧
      t.requireTrait lhs.ty traitName origin = .ok (.ok (), s') := by
  obtain ⟨⟨answer, t⟩, htype, h⟩ := exists_of_bind_eq_ok h
  have hsame : t = s' := by
    cases answer with
    | none =>
        cases h
        rfl
    | some answer =>
        dsimp only at h
        split at h
        · cases h
          rfl
        · cases h
          rfl
  subst hsame
  rw [operatorType, htrait] at htype
  obtain ⟨⟨agreed, u⟩, hunify, htype⟩ := exists_of_bind_eq_ok htype
  cases agreed with
  | error error =>
      cases htype
      exact absurd hnone (reports_report_ne_nil u _)
  | ok =>
      obtain ⟨⟨satisfied, w⟩, hrequire, htype⟩ := exists_of_bind_eq_ok htype
      cases satisfied with
      | error error =>
          cases htype
          exact absurd hnone (reports_report_ne_nil w _)
      | ok =>
          refine ⟨u, hunify, ?_⟩
          dsimp only at htype
          split at htype
          · cases htype
            exact hrequire
          · obtain ⟨applied, _, htype⟩ := exists_of_bind_eq_ok htype
            cases htype
            exact hrequire

/-- An operator with a trait holds it of its left operand, unless it reports. -/
theorem held_of_binary {operator : Operator} {lhs rhs inferred : Inferred}
    (hs : s.subst.WellFormed) (htrait : operator.trait? = some traitName)
    (h : s.binary operator lhs rhs origin = .ok (inferred, s')) (hnone : s'.reports = []) :
    s'.Held traitName lhs.ty := by
  obtain ⟨t, hunify, hrequire⟩ := exists_of_binary htrait h hnone
  have ht : t.subst.WellFormed :=
    ((delivers_unify hs.acyclic lhs.ty rhs.ty).of_eq_ok hunify).wellFormed hs
  exact held_of_requireTrait ht hrequire

/-- The session is ended with a unit, and comes to its last state on the way. -/
def EndsWell (s last : Session) : Prop :=
  ∃ unit settled, s.finish = .ok (.ok unit) ∧ s.settle = .ok (settled, last)

/-- A type, with all bindings used and below its wrappers, has a trait or is a
wildcard; it is no variable. -/
def Justified (s : Session) (traitName : String) (ty : Ty) : Prop :=
  ∃ applied, s.apply ty = .ok applied ∧ s.registry.Meets traitName applied.unwrap

theorem justified_iff (hs : s.subst.Acyclic) :
    s.Justified traitName ty ↔ s.registry.Meets traitName (s.subst.subject ty) := by
  constructor
  · rintro ⟨applied, happly, hmeets⟩
    cases (hs.apply_eq_ok ty).symm.trans happly
    exact hmeets
  · intro hmeets
    exact ⟨_, hs.apply_eq_ok ty, hmeets⟩

/-- A session that ends with a unit makes no report, and nothing changes on the way. -/
theorem EndsWell.exists_settlesQuietly {last : Session} (h : s.EndsWell last)
    (hreach : s.Reachable) : ∃ settled, s.SettlesQuietly settled last ∧ s.reports = [] := by
  obtain ⟨unit, settled, hfinish, hsettle⟩ := h
  obtain ⟨_, _, heq, hquiet⟩ := exists_settle hreach.wellFormed hreach.waits
  cases heq.symm.trans hsettle
  have hnone : last.reports = [] := ((finish_eq_unit_iff hsettle).mp hfinish).1
  have hsettles := hquiet hnone
  rw [hsettles.unchanged] at hnone
  exact ⟨settled, hsettles, hnone⟩

/-- Where a session ends with a unit, every trait that is held is met. -/
theorem EndsWell.justified {last : Session} (h : s.EndsWell last) (hreach : s.Reachable)
    (hheld : s.reports = [] → s.Held traitName ty) : last.Justified traitName ty := by
  obtain ⟨settled, hsettles, hnone⟩ := h.exists_settlesQuietly hreach
  obtain ⟨rfl, hmet, _⟩ := hsettles
  apply (justified_iff hreach.wellFormed.acyclic).mpr
  rcases hheld hnone with hmeets | ⟨o, ho, rfl, hsubject⟩
  · exact hmeets
  · have hmeets := hmet o ho
    rwa [hsubject] at hmeets

end Session

end TypeInference

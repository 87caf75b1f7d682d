/-
# The operands of an operator

An operator makes its operands agree and requires its trait of the left one.
Agreement carries the trait over to the right one, except past a wildcard: a
left operand that is `any` or `error` agrees with everything, has every trait,
and so nothing at all is asked of the right one.

Only a wildcard that is written as the operand does this.  A variable is never
bound to a wildcard as long as nothing is reported, so that an operand which
was open at first does carry the trait over.
-/

import TypeInference.Proofs.Session.Idempotence
import TypeInference.Proofs.Session.Obligation

namespace TypeInference

namespace Ty

/-- Outer wrappers are taken off by erasing and by unwrapping. -/
theorem tag_erase (ty : Ty) : ty.erase.tag = ty.unwrap.tag := by
  induction ty with
  | const base value ih => rw [erase_const, unwrap, ih]
  | func params result => rw [erase_func, unwrap.eq_def, tag, tag]
  | _ => rfl

/-- Types that agree have the same outermost constructor, or one is a wildcard. -/
theorem Agree.tag_eq {x y : Ty} (h : Agree x y) :
    x.isWildcard = true ∨ y.isWildcard = true ∨ x.tag = y.tag := by
  cases h with
  | anyLeft | errorLeft => exact .inl rfl
  | anyRight | errorRight => exact .inr (.inl rfl)
  | var | leaf => exact .inr (.inr rfl)
  | func => exact .inr (.inr (by rw [tag, tag]))

end Ty

section Transfer

variable {s : Subst} {registry : Registry} {traitName : String} {a b : Ty}

theorem Subst.tag_stored (s : Subst) (ty : Ty) : (s.stored ty).tag = (s.subject ty).tag :=
  Ty.tag_erase _

/-- A trait goes over from a type to one that agrees with it, unless the first is a
wildcard. -/
theorem Registry.Meets.of_agreed (h : registry.Meets traitName (s.subject a))
    (hwild : (s.subject a).isWildcard = false) (hagreed : s.Agreed a b) :
    registry.Meets traitName (s.subject b) := by
  rcases hagreed.tag_eq with ha | hb | htag
  · rw [Ty.isWildcard_eq_tag, s.tag_stored, ← Ty.isWildcard_eq_tag, hwild] at ha
    cases ha
  · rw [Ty.isWildcard_eq_tag, s.tag_stored, ← Ty.isWildcard_eq_tag] at hb
    refine ⟨?_, .inl hb⟩
    cases hsubject : s.subject b with
    | var v =>
        rw [hsubject] at hb
        cases hb
    | _ => rfl
  · rw [s.tag_stored, s.tag_stored] at htag
    exact h.of_tag_eq (s.unwrap_subject a) (s.unwrap_subject b) htag

end Transfer

/-- No variable is bound to a wildcard. -/
def Subst.Solid (s : Subst) : Prop := ∀ v bound, s.lookup v = some bound → bound.isWildcard = false

namespace Subst

variable {s : Subst} {ty : Ty}

theorem Solid.extend (h : s.Solid) (hty : ty.isWildcard = false) (v : VarId) :
    (s.extend v ty).Solid := by
  intro w bound hw
  by_cases heq : w = v
  · rw [heq, lookup_extend_self] at hw
    cases hw
    exact hty
  · rw [lookup_extend_of_ne s heq] at hw
    exact h w bound hw

theorem Solid.isWildcard_image (h : s.Solid) (hs : s.Acyclic) (v : VarId) :
    (s.image v).isWildcard = false := by
  induction v using hs.induction with | step v ih
  cases hlookup : s.lookup v with
  | none =>
      rw [image_of_lookup_eq_none hlookup]
      rfl
  | some bound =>
      rw [hs.image_of_lookup_eq_some hlookup]
      by_cases hvar : bound.isVar = true
      · obtain ⟨w, rfl⟩ := Ty.exists_of_isVar hvar
        rw [Ty.instantiate_var]
        exact ih _ w hlookup (Ty.occurs_var.mpr rfl)
      · rw [Ty.isWildcard_eq_tag, Ty.tag_instantiate (Bool.eq_false_iff.mpr hvar),
          ← Ty.isWildcard_eq_tag]
        exact h v bound hlookup

/-- Only a type that is written as a wildcard has one as its subject. -/
theorem Solid.isWildcard_subject (h : s.Solid) (hs : s.WellFormed)
    (hty : ty.unwrap.isWildcard = false) : (s.subject ty).isWildcard = false := by
  rw [subject, Ty.unwrap_instantiate hs.hasConst_image]
  by_cases hvar : ty.unwrap.isVar = true
  · obtain ⟨v, hv⟩ := Ty.exists_of_isVar hvar
    rw [hv, Ty.instantiate_var]
    exact h.isWildcard_image hs.acyclic v
  · rwa [Ty.isWildcard_eq_tag, Ty.tag_instantiate (Bool.eq_false_iff.mpr hvar),
      ← Ty.isWildcard_eq_tag]

theorem isWildcard_subject_of_unwrap (hs : s.WellFormed) (hty : ty.unwrap.isWildcard = true) :
    (s.subject ty).isWildcard = true := by
  rw [subject, Ty.unwrap_instantiate hs.hasConst_image]
  cases hunwrap : ty.unwrap with
  | any | error => rfl
  | _ =>
      rw [hunwrap] at hty
      cases hty

end Subst

namespace Unify

variable {c d : Subst × List (Ty × Ty)}

theorem Reduce.solid (h : Reduce c d) (hc : c.1.Solid) : d.1.Solid := by
  cases h with
  | parts _ => exact hc
  | @binding s x y ty v rest hfound =>
      -- A wildcard would have ended the comparison before anything is bound.
      have hwild : (x.isWildcard || y.isWildcard) = false := by
        rw [← Bool.not_eq_true]
        intro hwild
        cases (examine_of_isWildcard hwild).symm.trans hfound
      rw [Bool.or_eq_false_iff] at hwild
      obtain ⟨_, ⟨_, rfl⟩ | ⟨_, rfl⟩⟩ := eq_of_examine_eq_binding hfound
      · exact hc.extend hwild.2 v
      · exact hc.extend hwild.1 v

theorem Reduces.solid (h : Reduces c d) (hc : c.1.Solid) : d.1.Solid := by
  induction h with
  | refl => exact hc
  | tail _ hreduce ih => exact hreduce.solid ih

end Unify

namespace Session

variable {s s' : Session} {ty : Ty} {traitName : String} {origin : NodeId}

theorem solid_unify (hs : s.subst.Acyclic) {a b : Ty} {outcome : Except TypeError Unit}
    (h : s.unify a b = .ok (outcome, s')) (hsolid : s.subst.Solid) : s'.subst.Solid := by
  rcases unify_settles hs a b with ⟨t, heq, ⟨hreduces⟩⟩ | ⟨error, t, heq, hsame, _⟩
  · cases heq.symm.trans h
    exact hreduces.solid hsolid
  · cases heq.symm.trans h
    rwa [hsame]

theorem Act.solid {given : Ty → Prop} (h : Act given s s') (hs : s.subst.WellFormed)
    (hsolid : s.reports = [] → s.subst.Solid) (hnone : s'.reports = []) : s'.subst.Solid := by
  have hbefore := hsolid (h.advances.reports_eq_nil hnone)
  cases h with
  | draw | retrace | report | file => exact hbefore
  | unify _ _ h => exact solid_unify hs.acyclic h hbefore
  | requireTrait h => rwa [(delivers_requireTrait hs.acyclic _ _ _).of_eq_ok h]
  | dischargeTraits h => rwa [(delivers_dischargeTraits hs.acyclic).of_eq_ok h]
  | poison hreported h =>
      obtain ⟨_, rfl⟩ := frame_poison h
      exact absurd hnone hreported

theorem Acts.solid {given : Ty → Prop} (h : Acts given s s') (hs : s.subst.WellFormed)
    (hsolid : s.reports = [] → s.subst.Solid) : s'.reports = [] → s'.subst.Solid := by
  induction h with
  | refl => exact hsolid
  | tail hacts hact ih => exact hact.solid ((Acts.grows hacts hs.acyclic).wellFormed hs) ih

/-- As long as nothing is reported, no variable is bound to a wildcard. -/
theorem Reachable.solid (h : s.Reachable) : s.reports = [] → s.subst.Solid := by
  refine h.holds (P := fun s => s.reports = [] → s.subst.Solid) (fun hnew _ => ?_)
    fun hreach hstep hsolid => ?_
  · obtain ⟨supply, _, h⟩ := exists_of_bind_eq_ok hnew
    cases h
    intro v bound hv
    cases hv
  · rcases hstep.acts with rfl | ⟨command, hacts⟩
    · exact hsolid
    · apply hacts.solid
      · rw [subst_recordedBy]
        exact hreach.wellFormed
      · rwa [reports_recordedBy, subst_recordedBy]

/-- An operator whose left operand is a wildcard leaves everything but the trace. -/
theorem eq_of_binary_wildcard {operator : Operator} {lhs rhs inferred : Inferred}
    (hs : s.subst.WellFormed) (htrait : operator.trait? = some traitName)
    (h : s.binary operator lhs rhs origin = .ok (inferred, s')) (hnone : s'.reports = [])
    (hwild : lhs.ty.unwrap.isWildcard = true) : s' = { s with trace := s'.trace } := by
  have hsubject := Subst.isWildcard_subject_of_unwrap hs hwild
  obtain ⟨t, hunify, hrequire⟩ := exists_of_binary htrait h hnone
  have hagreed : s.subst.Agreed lhs.ty rhs.ty := by
    apply Ty.Agree.of_isWildcard
    rw [Ty.isWildcard_eq_tag (s.subst.stored lhs.ty), s.subst.tag_stored, ← Ty.isWildcard_eq_tag,
      hsubject, Bool.true_or]
  obtain ⟨u, hunify', hsame⟩ := (unified_iff_agreed hs.acyclic).mpr hagreed
  cases hunify.symm.trans hunify'
  have ht : t = { s with trace := t.trace } := by
    obtain ⟨subst, trace, rfl⟩ := frame_unify hunify
    exact congrArg (fun subst => { s with subst, trace }) hsame
  rcases requireTrait_cases (hsame.symm ▸ hs) (contains_of_requireTrait hrequire) lhs.ty origin with
    ⟨_, heq⟩ | ⟨v, hv, _⟩ | ⟨hrefuses, _⟩
  · cases heq.symm.trans hrequire
    exact ht
  · rw [hsame] at hv
    rw [hv] at hsubject
    cases hsubject
  · rw [hsame] at hrefuses
    cases hsubject.symm.trans hrefuses.2.1

/-- In a session that ends with a unit, every operator with a trait has it of its left
operand.  It has it of its right operand as well, unless the left one is written as a
wildcard; then the operator has required nothing. -/
theorem operands_have_trait (hreach : s.Reachable) {operator : Operator}
    {lhs rhs inferred : Inferred} {calls : List Call} {replies : List Reply} {s₁ s₂ last : Session}
    (htrait : operator.trait? = some traitName)
    (hbinary : s.binary operator lhs rhs origin = .ok (inferred, s₁))
    (hcalls : s₁.perform calls = .ok (replies, s₂)) (hends : s₂.EndsWell last) :
    last.Justified traitName lhs.ty ∧
    (lhs.ty.unwrap.isWildcard = false → last.Justified traitName rhs.ty) ∧
    (lhs.ty.unwrap.isWildcard = true → s₁ = { s with trace := s₁.trace }) := by
  have hs := hreach.wellFormed
  have hreach₁ : s₁.Reachable := hreach.later (.single (step_of_binary hbinary))
  have hreach₂ : s₂.Reachable := hreach₁.later (later_of_perform hcalls)
  have hheld := held_perform hcalls hreach₁ (held_of_binary hs htrait hbinary)
  have hlhs : last.Justified traitName lhs.ty := hends.justified hreach₂ hheld
  obtain ⟨settled, hsettles, hnone₂⟩ := hends.exists_settlesQuietly hreach₂
  have hnone₁ : s₁.reports = [] := List.prefix_nil.mp (hnone₂ ▸ reports_perform hcalls)
  have hs₁ := hreach₁.wellFormed.acyclic
  have hs₂ := hreach₂.wellFormed
  refine ⟨hlhs, fun hwild => ?_, eq_of_binary_wildcard hs htrait hbinary hnone₁⟩
  have hagreed : s₂.subst.Agreed lhs.ty rhs.ty := by
    obtain ⟨t, hunify, hrequire⟩ := exists_of_binary htrait hbinary hnone₁
    have hgrows := (delivers_unify hs.acyclic lhs.ty rhs.ty).of_eq_ok hunify
    have hsame : s₁.subst = t.subst :=
      (delivers_requireTrait (hgrows.acyclic hs.acyclic) _ _ _).of_eq_ok hrequire
    have hagreed₁ : s₁.subst.Agreed lhs.ty rhs.ty := hsame ▸ agreed_of_unify_ok hs.acyclic hunify
    exact hagreed₁.grows hs₁ ((later_of_perform hcalls).grows hs₁)
  rw [hsettles.unchanged] at hlhs ⊢
  have hmeets : s₂.registry.Meets traitName (s₂.subst.subject lhs.ty) :=
    (justified_iff hs₂.acyclic).mp hlhs
  have hproper : (s₂.subst.subject lhs.ty).isWildcard = false :=
    (hreach₂.solid hnone₂).isWildcard_subject hs₂ hwild
  exact (justified_iff hs₂.acyclic).mpr (hmeets.of_agreed hproper hagreed)

/-- Two open operands are added, and the right one then turns out to be a string. -/
theorem operands_have_trait_open_operands : ∃ s s₁ s₂ last : Session, s.Reachable ∧
    s.binary .add (.ofTy (.var 0)) (.ofTy (.const (.var 1) .none)) (.expr 0) =
      .ok (.ofTy (.var 1), s₁) ∧
    s₁.perform [⟨.empty, .new, ⟨0⟩, .unify (.var 1) .str⟩] = .ok ([.outcome (.ok ())], s₂) ∧
    s₂.EndsWell last ∧ last.apply (.const (.var 1) .none) = .ok (.const .str .none) ∧
    last.Justified addable (.var 0) ∧ last.Justified addable (.const (.var 1) .none) := by
  have hrun : ∃ s s₁ s₂ last : Session, s.Reachable ∧
      s.binary .add (.ofTy (.var 0)) (.ofTy (.const (.var 1) .none)) (.expr 0) =
        .ok (.ofTy (.var 1), s₁) ∧
      s₁.perform [⟨.empty, .new, ⟨0⟩, .unify (.var 1) .str⟩] = .ok ([.outcome (.ok ())], s₂) ∧
      s₂.EndsWell last ∧ last.apply (.const (.var 1) .none) = .ok (.const .str .none) :=
    ⟨_, _, _, _,
      reachable_of_run Registry.builtin { varOffset := some 0 } ⟨0⟩ [.freshVars 2] rfl rfl,
      rfl, rfl, ⟨_, _, rfl, rfl⟩, rfl⟩
  obtain ⟨s, s₁, s₂, last, hreach, hbinary, hcalls, hends, happly⟩ := hrun
  obtain ⟨hlhs, hrhs, _⟩ := operands_have_trait hreach rfl hbinary hcalls hends
  exact ⟨s, s₁, s₂, last, hreach, hbinary, hcalls, hends, happly, hlhs, hrhs rfl⟩

/-- The sides of an operator are not alike.  With `any` on the left, a right operand
that does not have the trait is let through, and the session ends with a unit; the
same two operands the other way round are reported. -/
theorem right_operand_without_trait : ∃ s s₁ s₂ : Session,
    Session.new Registry.builtin { varOffset := some 0 } ⟨0⟩ = .ok (s, ⟨0⟩) ∧
    s.binary .add (.ofTy .any) (.ofTy .bool) (.expr 0) = .ok (.ofTy .any, s₁) ∧
    s₁.EndsWell s₁ ∧ ¬ s₁.Justified addable .bool ∧
    s.binary .add (.ofTy .bool) (.ofTy .any) (.expr 0) = .ok (.error, s₂) ∧
    s₂.reports = [.ofError (.unsatisfied .bool addable) (.expr 0)] := by
  refine ⟨_, _, _, rfl, rfl, ⟨_, _, rfl, rfl⟩, ?_, rfl, rfl⟩
  rintro ⟨applied, happly, _, hwild | hyes⟩
  · cases happly
    cases hwild
  · cases happly
    cases hyes

end Session

end TypeInference

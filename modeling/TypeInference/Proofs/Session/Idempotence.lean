/-
# Unifying again

Types that agree once all bindings are used have nothing left to bind, and this
is the only way in which a unification can succeed without a binding.  So there
are two views of one fact: the answer of the unifier, which looks at heads and
follows bindings as it goes, and agreement, which is a relation on applied types.

Agreement is never lost.  A unification that has succeeded can therefore be
repeated at any later time, and the repetition binds nothing.
-/

import TypeInference.Proofs.Session.Comparison
import TypeInference.Proofs.Session.Unification

namespace TypeInference

namespace Unify

open Relation

/-- Types that agree leave parts that agree. -/
theorem examine_of_agree {x y : Ty} (h : x.Agree y) :
    ∃ pairs, examine x y = .parts pairs ∧ ∀ pair ∈ pairs, pair.1.Agree pair.2 := by
  have hnothing : ∀ pair ∈ ([] : List (Ty × Ty)), pair.1.Agree pair.2 :=
    fun _ hpair => absurd hpair List.not_mem_nil
  cases h with
  | anyLeft => exact ⟨[], examine_of_isWildcard rfl, hnothing⟩
  | errorLeft => exact ⟨[], examine_of_isWildcard rfl, hnothing⟩
  | anyRight => exact ⟨[], examine_of_isWildcard (Bool.or_true _), hnothing⟩
  | errorRight => exact ⟨[], examine_of_isWildcard (Bool.or_true _), hnothing⟩
  | var v => exact ⟨[], examine_var_self v, hnothing⟩
  | leaf hx =>
      refine ⟨[], ?_, hnothing⟩
      cases x with
      | int | num | bool | str | none => rfl
      | _ => cases hx
  | func hlength hparams hresult =>
      refine ⟨_, (examine_func _ _ _ _).trans (if_pos hlength), ?_⟩
      exact List.forall_mem_append.mpr ⟨hparams, List.forall_mem_singleton.mpr hresult⟩

/-- A reduction of pairs that agree binds nothing and leaves such pairs. -/
theorem Reduce.of_agree {c d : Subst × List (Ty × Ty)} (h : Reduce c d)
    (hagree : ∀ pair ∈ c.2, pair.1.Agree pair.2) :
    d.1 = c.1 ∧ ∀ pair ∈ d.2, pair.1.Agree pair.2 := by
  cases h with
  | parts hfound =>
      obtain ⟨hfirst, hrest⟩ := List.forall_mem_cons.mp hagree
      obtain ⟨pairs, hparts, hpairs⟩ := examine_of_agree hfirst
      cases hparts.symm.trans hfound
      exact ⟨rfl, List.forall_mem_append.mpr ⟨hpairs, hrest⟩⟩
  | binding hfound =>
      obtain ⟨pairs, hparts, _⟩ := examine_of_agree (hagree _ List.mem_cons_self)
      cases hparts.symm.trans hfound

theorem Reduces.of_agree {c d : Subst × List (Ty × Ty)} (h : Reduces c d)
    (hagree : ∀ pair ∈ c.2, pair.1.Agree pair.2) :
    d.1 = c.1 ∧ ∀ pair ∈ d.2, pair.1.Agree pair.2 := by
  induction h with
  | refl => exact ⟨rfl, hagree⟩
  | tail _ hreduce ih =>
      obtain ⟨hsame, hmiddle⟩ := ih
      obtain ⟨hsame', hlast⟩ := hreduce.of_agree hmiddle
      exact ⟨hsame'.trans hsame, hlast⟩

/-- Pairs that agree are solved by the bindings there are. -/
theorem Settles.of_agree {s : Subst} {pairs : List (Ty × Ty)} {outcome : Except TypeError Subst}
    (h : Settles (s, pairs) outcome) (hagree : ∀ pair ∈ pairs, pair.1.Agree pair.2) :
    outcome = .ok s := by
  cases h with
  | solved hreduces => exact congrArg Except.ok (hreduces.of_agree hagree).1
  | refused hreduces hconflict =>
      have hlast := (hreduces.of_agree hagree).2
      obtain ⟨parts, hparts, _⟩ := examine_of_agree (hlast _ List.mem_cons_self)
      cases hparts.symm.trans hconflict

end Unify

namespace Session

open Unify

variable {s : Session} {a b : Ty}

/-- Two types need no more binding: to unify them succeeds and leaves the bindings
and the trail as they are. -/
def Unified (s : Session) (a b : Ty) : Prop :=
  ∃ s', s.unify a b = .ok (.ok (), s') ∧ s'.subst = s.subst

/-- What a successful unification has made of its types. -/
theorem agreed_of_unify_ok {s' : Session} (hs : s.subst.Acyclic)
    (h : s.unify a b = .ok (.ok (), s')) : s'.subst.Agreed a b := by
  obtain ⟨p, hmoves, hp⟩ := exists_moves_of_unify_ok hs h
  exact hp ▸ hmoves.agreed rfl hs _ List.mem_cons_self

/-- A unification succeeds without a binding exactly where the types agree. -/
theorem unified_iff_agreed (hs : s.subst.Acyclic) : s.Unified a b ↔ s.subst.Agreed a b := by
  constructor
  · rintro ⟨s', hunify, hsame⟩
    exact hsame ▸ agreed_of_unify_ok hs hunify
  · intro hagreed
    have hpair : ∀ pair ∈ [(s.subst.stored a, s.subst.stored b)], pair.1.Agree pair.2 :=
      List.forall_mem_singleton.mpr hagreed
    rcases unify_settles hs a b with ⟨s', hunify, hsettles⟩ | ⟨error, s', _, _, hsettles⟩
    · exact ⟨s', hunify, Except.ok.inj (hsettles.of_agree hpair)⟩
    · cases hsettles.of_agree hpair

/-- To unify two types binds nothing exactly if they agree with all bindings used.
It is so for types of the same shape, for a type and itself, and for types that
were unified before, whatever has happened in between. -/
theorem unify_binds_nothing_iff_agree (hreach : s.Reachable) :
    (∀ a b, ∃ x y, s.apply a = .ok x ∧ s.apply b = .ok y ∧
      (s.Unified a b ↔ x.erase.Agree y.erase) ∧ (x.sameShape y = true → s.Unified a b)) ∧
    (∀ a, s.Unified a a) ∧
    (∀ a b s₁ s₂, s.unify a b = .ok (.ok (), s₁) → Later s₁ s₂ → s₂.Unified a b) := by
  have hs := hreach.wellFormed.acyclic
  refine ⟨fun a b => ?_, fun a => ?_, fun a b s₁ s₂ hunify hlater => ?_⟩
  · refine ⟨_, _, hs.apply_eq_ok a, hs.apply_eq_ok b, unified_iff_agreed hs, fun hshape => ?_⟩
    exact (unified_iff_agreed hs).mpr (.of_stored_eq (Ty.erase_eq_of_sameShape hshape))
  · exact (unified_iff_agreed hs).mpr (.of_stored_eq rfl)
  · have hs₁ := ((delivers_unify hs a b).of_eq_ok hunify).acyclic hs
    have hgrows := hlater.grows hs₁
    exact (unified_iff_agreed (hgrows.acyclic hs₁)).mpr
      ((agreed_of_unify_ok hs hunify).grows hs₁ hgrows)

/-- A function is unified with a variable and a wildcard in it, and the variable of
its result is bound only afterwards. -/
theorem unify_binds_nothing_after_binding : ∃ s s₁ s₂ : Session, s.Reachable ∧
    s.unify (.func [.var 0, .any] (.var 1)) (.func [.const .num .none, .str] (.var 2)) =
      .ok (.ok (), s₁) ∧
    Later s₁ s₂ ∧ s₁.subst.trail = [1, 0] ∧ s₂.subst.trail = [2, 1, 0] ∧
    s₂.Unified (.func [.var 0, .any] (.var 1)) (.func [.const .num .none, .str] (.var 2)) := by
  have hrun : ∃ s s₁ s₂ : Session, s.Reachable ∧
      s.unify (.func [.var 0, .any] (.var 1)) (.func [.const .num .none, .str] (.var 2)) =
        .ok (.ok (), s₁) ∧
      Later s₁ s₂ ∧ s₁.subst.trail = [1, 0] ∧ s₂.subst.trail = [2, 1, 0] :=
    ⟨_, _, _,
      reachable_of_run Registry.builtin { varOffset := some 0 } ⟨0⟩ [.freshVars 3] rfl rfl, rfl,
      .single (@Step.exec ⟨_, .empty, .new, ⟨0⟩⟩ _ (.unify (.var 1) .bool) _ rfl),
      rfl, rfl⟩
  obtain ⟨s, s₁, s₂, hreach, hunify, hlater, htrail₁, htrail₂⟩ := hrun
  have hagain := (unify_binds_nothing_iff_agree hreach).2.2 _ _ _ _ hunify hlater
  exact ⟨s, s₁, s₂, hreach, hunify, hlater, htrail₁, htrail₂, hagain⟩

end Session

end TypeInference

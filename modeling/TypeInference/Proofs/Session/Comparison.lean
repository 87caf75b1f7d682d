/-
# Two unifications from one state

What a session answers to a unification is compared with what it would answer
to a similar one.  Literal wrappers make no difference, neither to the outcome
nor to the bindings.  The order of the two sides makes none that a permutation
of the variables does not undo.

Both comparisons go through the stored forms of the types: in the first the two
unifications have the same stored pair, in the second the one is the mirror
image of the other.
-/

import TypeInference.Proofs.Session.Reachable
import TypeInference.Proofs.Unify.Symmetry

namespace TypeInference

/-- Types that differ in the values of literals alone are the same without wrappers. -/
theorem Ty.erase_eq_of_sameShape {a b : Ty} (h : a.sameShape b = true) : a.erase = b.erase := by
  induction a generalizing b with
  | var v => cases b <;> simp_all [sameShape, equalBy, tag]
  | func params result ihParams ihResult =>
      cases b with
      | func params' result' =>
          simp only [sameShape, equalBy, Bool.and_eq_true] at h
          have hparams : params.map erase = params'.map erase := by
            have hlist := h.1
            clear h ihResult
            induction params generalizing params' with
            | nil => cases params' <;> simp_all [equalAllBy]
            | cons first rest ih =>
                cases params' with
                | nil => cases hlist
                | cons first' rest' =>
                    simp only [equalAllBy, Bool.and_eq_true] at hlist
                    rw [List.map_cons, List.map_cons, ihParams first List.mem_cons_self hlist.1,
                      ih (fun param hparam => ihParams param (List.mem_cons_of_mem _ hparam)) rest'
                        hlist.2]
          rw [erase_func, erase_func, hparams, ihResult h.2]
      | _ => simp [sameShape, equalBy, tag] at h
  | const base value ih =>
      cases b with
      | const base' value' =>
          simp only [sameShape, equalBy, Bool.and_true] at h
          rw [erase_const, erase_const, ih h]
      | _ => simp [sameShape, equalBy, tag] at h
  | _ => cases b <;> simp_all [sameShape, equalBy, tag]

namespace Session

open Unify

variable {s : Session}

/-- A unification ends as the reduction of its stored pair does. -/
theorem unify_settles (hs : s.subst.Acyclic) (a b : Ty) :
    (∃ s', s.unify a b = .ok (.ok (), s') ∧
      Settles (s.subst, [(s.subst.stored a, s.subst.stored b)]) (.ok s'.subst)) ∨
    (∃ error s', s.unify a b = .ok (.error error, s') ∧ s'.subst = s.subst ∧
      Settles (s.subst, [(s.subst.stored a, s.subst.stored b)]) (.error error.erase)) := by
  rcases unify_cases hs a b with ⟨p, hmoves, heq⟩ | ⟨error, q, x, y, more, p, hmoves, hstuck, heq⟩
  · exact .inl ⟨_, heq, hmoves.settles hs⟩
  · exact .inr ⟨error, _, heq, rfl, hstuck.settles hmoves hs⟩

/-- Two outcomes of unification that are the same up to literal wrappers. -/
inductive SameOutcome : Except TypeError Unit → Except TypeError Unit → Prop
  | ok : SameOutcome (.ok ()) (.ok ())
  | error {error error' : TypeError} (h : error.erase = error'.erase) :
      SameOutcome (.error error) (.error error')

/-- Two answers to a unification with the same outcome and the same substitution. -/
def SameAnswer (answer answer' : Except Fault (Except TypeError Unit × Session)) : Prop :=
  ∃ outcome outcome' t t', answer = .ok (outcome, t) ∧ answer' = .ok (outcome', t') ∧
    SameOutcome outcome outcome' ∧ t.subst = t'.subst

theorem sameAnswer_of_stored_eq (hs : s.subst.Acyclic) {a b a' b' : Ty}
    (ha : s.subst.stored a = s.subst.stored a') (hb : s.subst.stored b = s.subst.stored b') :
    SameAnswer (s.unify a b) (s.unify a' b') := by
  have hfirst := unify_settles hs a b
  rw [ha, hb] at hfirst
  rcases hfirst with ⟨t, heq, hsettles⟩ | ⟨error, t, heq, hsubst, hsettles⟩
  · rcases unify_settles hs a' b' with ⟨t', heq', hsettles'⟩ | ⟨error', t', heq', _, hsettles'⟩
    · exact ⟨_, _, t, t', heq, heq', .ok, Except.ok.inj (hsettles.unique hsettles')⟩
    · cases hsettles.unique hsettles'
  · rcases unify_settles hs a' b' with
      ⟨t', heq', hsettles'⟩ | ⟨error', t', heq', hsubst', hsettles'⟩
    · cases hsettles.unique hsettles'
    · have herror := Except.error.inj (hsettles.unique hsettles')
      exact ⟨_, _, t, t', heq, heq', .error herror, hsubst.trans hsubst'.symm⟩

/-- Unification does not see literal wrappers.  Without them it succeeds or fails
as with them, for the same reason, and leaves the same bindings and the same
trail; and it makes no difference which literals the wrappers remember. -/
theorem unify_ignores_literals (hreach : s.Reachable) (a b : Ty) :
    SameAnswer (s.unify a b) (s.unify a.erase b.erase) ∧
    ∀ a' b', a.sameShape a' = true → b.sameShape b' = true →
      SameAnswer (s.unify a b) (s.unify a' b') := by
  have hs := hreach.wellFormed.acyclic
  constructor
  · exact sameAnswer_of_stored_eq hs (Subst.stored_erase a).symm (Subst.stored_erase b).symm
  · intro a' b' ha hb
    apply sameAnswer_of_stored_eq hs
    · rw [← Subst.stored_erase, Ty.erase_eq_of_sameShape ha, Subst.stored_erase]
    · rw [← Subst.stored_erase, Ty.erase_eq_of_sameShape hb, Subst.stored_erase]

/-- A wrapped function meets a variable that stands for a function, and its
wrapped parameter binds another variable before the results turn out to differ. -/
theorem unify_ignores_literals_nested : ∃ s : Session, s.Reachable ∧ s.subst.trail = [0] ∧
    SameAnswer
      (s.unify (.const (.func [.const (.var 1) .none] (.const .num (.bool true))) .none) (.var 0))
      (s.unify (.func [.var 1] .num) (.var 0)) ∧
    SameAnswer
      (s.unify (.const (.func [.const (.var 1) .none] (.const .num (.bool true))) .none) (.var 0))
      (s.unify (.const (.func [.const (.var 1) (.int 3)] (.const .num .none)) (.int 4))
        (.var 0)) := by
  have hrun : ∃ s : Session, s.Reachable ∧ s.subst.trail = [0] :=
    ⟨_, reachable_of_run Registry.builtin { varOffset := some 0 } ⟨0⟩
      [.freshVars 2, .unify (.var 0) (.func [.str] .bool)] rfl rfl, rfl⟩
  obtain ⟨s, hreach, htrail⟩ := hrun
  obtain ⟨herased, hreplaced⟩ := unify_ignores_literals hreach
    (.const (.func [.const (.var 1) .none] (.const .num (.bool true))) .none) (.var 0)
  exact ⟨s, hreach, htrail, herased, hreplaced _ _ (by decide) (by decide)⟩

/-- Two types are consistent when they can be unified. -/
theorem consistent_of_unify {a b : Ty} {outcome : Except TypeError Unit} {s' : Session}
    (h : s.unify a b = .ok (outcome, s')) : s.consistent a b = .ok outcome.isOk := by
  rw [unify] at h
  rw [consistent]
  cases hattempt : Unify.run s.subst a b with
  | solved p =>
      rw [hattempt] at h
      cases h
      rfl
  | failed error p =>
      rw [hattempt] at h
      cases h
      rfl
  | broken fault =>
      rw [hattempt] at h
      cases h

/-- Where all variables stand for the same up to renaming, so do all types. -/
theorem instantiate_image_rename {t t' : Subst} {r : VarId → VarId}
    (h : ∀ v, t'.image v = (t.image v).rename r) (ty : Ty) :
    ty.instantiate t'.image = (ty.instantiate t.image).rename r := by
  rw [Ty.rename, Ty.instantiate_instantiate]
  exact Ty.instantiate_congr fun v _ => h v

/-- The two sides of a unification may be exchanged.  Consistency is the same, and
both orders fail for the same kind of reason or both succeed; the substitutions
that they then leave apply alike up to a permutation of the variables. -/
theorem unify_symmetric (hreach : s.Reachable) (a b : Ty) :
    (∃ answer, s.consistent a b = .ok answer ∧ s.consistent b a = .ok answer) ∧
    ((∃ s₁ s₂, s.unify a b = .ok (.ok (), s₁) ∧ s.unify b a = .ok (.ok (), s₂) ∧
        ∃ r : Equiv.Perm VarId, ∀ ty, ∃ applied, s₁.apply ty = .ok applied ∧
          s₂.apply ty = .ok (applied.rename r)) ∨
      (∃ error₁ error₂ s₁ s₂, s.unify a b = .ok (.error error₁, s₁) ∧
        s.unify b a = .ok (.error error₂, s₂) ∧ error₁.category = error₂.category)) := by
  have hs := hreach.wellFormed.acyclic
  have hc := normal_reduced (c := (s.start, [(a, b)])) hs
  have hd := normal_reduced (c := (s.start, [(b, a)])) hs
  have hmirrors : Mirrors (Equiv.refl VarId) (reduced (s.start, [(a, b)]))
      (reduced (s.start, [(b, a)])) :=
    ⟨fun v => (Ty.rename_id _).symm, congrArg (· :: [])
      (Prod.ext (Ty.rename_id _).symm (Ty.rename_id _).symm)⟩
  have hacyclic {a b : Ty} {t : Session} (heq : s.unify a b = .ok (.ok (), t)) :
      t.subst.Acyclic := ((delivers_unify hs a b).of_eq_ok heq).acyclic hs
  rcases unify_settles hs a b with ⟨s₁, heq₁, hsettles₁⟩ | ⟨error₁, s₁, heq₁, _, hsettles₁⟩
  · obtain ⟨r, t, hsettles, himage⟩ := hsettles₁.mirror_ok hmirrors hc hd
    rcases unify_settles hs b a with ⟨s₂, heq₂, hsettles₂⟩ | ⟨error₂, s₂, heq₂, _, hsettles₂⟩
    · cases hsettles.unique hsettles₂
      refine ⟨⟨true, consistent_of_unify heq₁, consistent_of_unify heq₂⟩,
        .inl ⟨s₁, s₂, heq₁, heq₂, r, fun ty => ⟨_, (hacyclic heq₁).apply_eq_ok ty, ?_⟩⟩⟩
      rw [apply, (hacyclic heq₂).apply_eq_ok, instantiate_image_rename himage]
    · cases hsettles.unique hsettles₂
  · obtain ⟨error, hsettles, hcategory⟩ := hsettles₁.mirror_error hmirrors hc hd
    rcases unify_settles hs b a with ⟨s₂, heq₂, hsettles₂⟩ | ⟨error₂, s₂, heq₂, _, hsettles₂⟩
    · cases hsettles.unique hsettles₂
    · have herror := Except.error.inj (hsettles.unique hsettles₂)
      refine ⟨⟨false, consistent_of_unify heq₁, consistent_of_unify heq₂⟩,
        .inr ⟨error₁, error₂, s₁, s₂, heq₁, heq₂, ?_⟩⟩
      rw [← error₂.category_erase, ← herror, hcategory, error₁.category_erase]

/-- Two open variables, one of them below a literal wrapper and beside a wildcard,
are bound in opposite directions. -/
theorem unify_symmetric_two_variables : ∃ s s₁ s₂ : Session, ∃ r : Equiv.Perm VarId,
    s.Reachable ∧
    s.unify (.func [.any, .var 0] .str) (.func [.var 2, .const (.var 1) .none] .str) =
      .ok (.ok (), s₁) ∧
    s.unify (.func [.var 2, .const (.var 1) .none] .str) (.func [.any, .var 0] .str) =
      .ok (.ok (), s₂) ∧
    s₁.subst.trail = [0] ∧ s₂.subst.trail = [1] ∧
    ∀ ty, ∃ applied, s₁.apply ty = .ok applied ∧ s₂.apply ty = .ok (applied.rename r) := by
  have hrun : ∃ s s₁ s₂ : Session, s.Reachable ∧
      s.unify (.func [.any, .var 0] .str) (.func [.var 2, .const (.var 1) .none] .str) =
        .ok (.ok (), s₁) ∧
      s.unify (.func [.var 2, .const (.var 1) .none] .str) (.func [.any, .var 0] .str) =
        .ok (.ok (), s₂) ∧
      s₁.subst.trail = [0] ∧ s₂.subst.trail = [1] :=
    ⟨_, _, _, reachable_of_run Registry.builtin { varOffset := some 0 } ⟨0⟩ [.freshVars 3] rfl rfl,
      rfl, rfl, rfl, rfl⟩
  obtain ⟨s, s₁, s₂, hreach, heq₁, heq₂, htrail₁, htrail₂⟩ := hrun
  rcases (unify_symmetric hreach (.func [.any, .var 0] .str)
    (.func [.var 2, .const (.var 1) .none] .str)).2 with
      ⟨t₁, t₂, heq₁', heq₂', r, hrename⟩ | ⟨_, _, _, _, heq₁', _⟩
  · rw [heq₁] at heq₁'
    rw [heq₂] at heq₂'
    cases heq₁'
    cases heq₂'
    exact ⟨s, s₁, s₂, r, hreach, heq₁, heq₂, htrail₁, htrail₂, hrename⟩
  · rw [heq₁] at heq₁'
    cases heq₁'

end Session

end TypeInference

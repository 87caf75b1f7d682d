/-
# What unification guarantees in a session

Three guarantees on every reachable session.  Types that were unified agree
from then on, whatever else happens.  On types without wildcards unification
commits to nothing that a solution could do without, and fails only where there
is no solution.  A failed unification can be seen in the reports and in the
trace, and nowhere else.
-/

import TypeInference.Proofs.Session.Reachable
import TypeInference.Proofs.Unify.Agreement
import TypeInference.Proofs.Unify.MostGeneral

namespace TypeInference.Session

open Unify

variable {s : Session}

/-- A unification that succeeded ended with nothing left to unify. -/
theorem exists_moves_of_unify_ok (hs : s.subst.Acyclic) {a b : Ty} {s' : Session}
    (h : s.unify a b = .ok (.ok (), s')) :
    ∃ p, Moves (s.start, [(a, b)]) (p, []) ∧ p.subst = s'.subst := by
  rcases unify_cases hs a b with ⟨p, hmoves, heq⟩ | ⟨_, _, _, _, _, _, _, _, heq⟩
  · rw [heq] at h
    cases h
    exact ⟨p, hmoves, rfl⟩
  · rw [heq] at h
    cases h

/-- Unified types agree at once and in every later state, and are equal up to
literal wrappers when neither they nor the bindings they lead to have wildcards. -/
theorem unify_agree_ever_after {s₁ s₂ : Session} {a b : Ty} (hreach : s.Reachable)
    (hunify : s.unify a b = .ok (.ok (), s₁)) (hlater : Later s₁ s₂) :
    ∃ x y, s₂.apply a = .ok x ∧ s₂.apply b = .ok y ∧ x.erase.Agree y.erase ∧
      (s.subst.Plain a → s.subst.Plain b → x.erase = y.erase) := by
  have hs := hreach.wellFormed.acyclic
  obtain ⟨p, hmoves, hp⟩ := exists_moves_of_unify_ok hs hunify
  have hgrows : s.subst.Grows s₁.subst := hp ▸ hmoves.grows
  have hs₁ := hgrows.acyclic hs
  have hafter := hlater.grows hs₁
  have hs₂ := hafter.acyclic hs₁
  have hagreed : s₁.subst.Agreed a b :=
    hp ▸ hmoves.agreed rfl hs _ List.mem_cons_self
  refine ⟨_, _, hs₂.apply_eq_ok a, hs₂.apply_eq_ok b, hagreed.grows hs₁ hafter, ?_⟩
  intro ha hb
  have hwork : PlainWork s.subst [(a, b)] :=
    List.forall_mem_singleton.mpr ⟨ha.stored hs, hb.stored hs⟩
  have hfirst : (s₁.subst.stored a).WildcardFree :=
    hp ▸ hmoves.wildcardFree_stored hs hwork (ha.stored hs)
  have hsecond : (s₁.subst.stored b).WildcardFree :=
    hp ▸ hmoves.wildcardFree_stored hs hwork (hb.stored hs)
  show s₂.subst.stored a = s₂.subst.stored b
  rw [hafter.stored_eq hs₁, hafter.stored_eq hs₁, hagreed.eq hfirst hsecond]

/-- A variable is unified with a function, whose parameter is poisoned later on. -/
theorem unify_agree_after_poison : ∃ s s₁ s₂ : Session, ∃ x y, s.Reachable ∧
    s.unify (.var 0) (.func [.const .num .none, .var 1] .str) = .ok (.ok (), s₁) ∧
    Later s₁ s₂ ∧ s₂.subst.lookup 1 = some .error ∧
    s₂.apply (.var 0) = .ok x ∧ s₂.apply (.func [.const .num .none, .var 1] .str) = .ok y ∧
    x.erase.Agree y.erase ∧ x.erase = y.erase := by
  have hrun : ∃ s s₁ s₂ : Session, s.Reachable ∧ s.subst.bindings.values = [] ∧
      s.unify (.var 0) (.func [.const .num .none, .var 1] .str) = .ok (.ok (), s₁) ∧
      Later s₁ s₂ ∧ s₂.subst.lookup 1 = some .error :=
    ⟨_, _, _, reachable_of_run Registry.builtin { varOffset := some 0 } ⟨0⟩ [.freshVars 2] rfl rfl,
      rfl, rfl, .single (@Step.settleExprs _ _ [(0, .ofTy (.var 1))] _ rfl), rfl⟩
  obtain ⟨s, s₁, s₂, hreach, hempty, hunify, hlater, hpoison⟩ := hrun
  have hfree := Subst.wildcardFree_of_mem_values (s := s.subst) (by simp [hempty])
  obtain ⟨x, y, hx, hy, hagree, heq⟩ := unify_agree_ever_after hreach hunify hlater
  have hequal : x.erase = y.erase :=
    heq (.of_bindings (by decide) hfree) (.of_bindings (by decide) hfree)
  exact ⟨s, s₁, s₂, x, y, hreach, hunify, hlater, hpoison, hx, hy, hagree, hequal⟩

/-- On types without wildcards, unification succeeds and binds as every solution
does, or it fails and there is no solution. -/
theorem unify_most_general (hreach : s.Reachable)
    (hbindings : ∀ v bound, s.subst.lookup v = some bound → bound.WildcardFree) {a b : Ty}
    (ha : a.WildcardFree) (hb : b.WildcardFree) :
    (∃ s', s.unify a b = .ok (.ok (), s') ∧
      ∀ solution, Solves solution s.subst [(a, b)] → Subst.Satisfies solution s'.subst) ∨
    (∃ error s', s.unify a b = .ok (.error error, s') ∧
      error.category ∈ [.typeMismatch, .arityMismatch, .infiniteType] ∧
      ∀ solution, ¬ Solves solution s.subst [(a, b)]) := by
  have hs := hreach.wellFormed.acyclic
  have hplain : ∀ ty : Ty, ty.WildcardFree → (s.subst.stored ty).WildcardFree :=
    fun ty hty => (Subst.Plain.of_bindings hty hbindings).stored hs
  have hwork : PlainWork s.subst [(a, b)] :=
    List.forall_mem_singleton.mpr ⟨hplain a ha, hplain b hb⟩
  rcases unify_cases hs a b with ⟨p, hmoves, heq⟩ | ⟨error, q, x, y, more, p, hmoves, hstuck, heq⟩
  · refine .inl ⟨_, heq, ?_⟩
    intro solution hsolution
    exact (hmoves.solves hs hwork hsolution).satisfies
  · refine .inr ⟨error, _, heq, hstuck.category, ?_⟩
    intro solution hsolution
    have hq := hmoves.grows.acyclic hs
    exact hstuck.not_solves hq (hmoves.solves hs hwork hsolution)

/-- A variable that stands for a function cannot be unified with the parameter of
that function, and unifying it with a function on numbers makes the parameter one. -/
theorem unify_most_general_bound_function : ∃ s : Session, s.Reachable ∧
    (∀ solution, ¬ Solves solution s.subst [(.var 0, .var 1)]) ∧
    (∀ solution, Solves solution s.subst [(.var 0, .func [.const .num .none] .str)] →
      solution 1 = .num) := by
  have hrun : ∃ s : Session, s.Reachable ∧ (∀ ty ∈ s.subst.bindings.values, ty.WildcardFree) ∧
      (∃ error s', s.unify (.var 0) (.var 1) = .ok (.error error, s')) ∧
      (∃ s', s.unify (.var 0) (.func [.const .num .none] .str) = .ok (.ok (), s') ∧
        s'.subst.lookup 1 = some .num) :=
    ⟨_, reachable_of_run Registry.builtin { varOffset := some 0 } ⟨0⟩
      [.freshVars 2, .unify (.var 0) (.func [.var 1] .str)] rfl rfl,
      by decide, ⟨_, _, rfl⟩, _, rfl, rfl⟩
  obtain ⟨s, hreach, hvalues, ⟨error, failed, hfail⟩, s', hok, hlookup⟩ := hrun
  have hfree := Subst.wildcardFree_of_mem_values hvalues
  refine ⟨s, hreach, fun solution hsolution => ?_, fun solution hsolution => ?_⟩
  · rcases unify_most_general hreach hfree (a := .var 0) (b := .var 1) (by decide) (by decide) with
      ⟨_, heq, _⟩ | ⟨_, _, _, _, hnone⟩
    · rw [hfail] at heq
      cases heq
    · exact hnone solution hsolution
  · rcases unify_most_general hreach hfree (a := .var 0) (b := .func [.const .num .none] .str)
      (by decide) (by decide) with ⟨_, heq, hall⟩ | ⟨_, _, heq, _, _⟩
    · rw [hok] at heq
      cases heq
      exact hall solution hsolution 1 .num hlookup
    · rw [hok] at heq
      cases heq

/-- A failed unification leaves everything but the trace. -/
theorem eq_of_unify_error (hs : s.subst.Acyclic) {a b : Ty} {error : TypeError} {s' : Session}
    (h : s.unify a b = .ok (.error error, s')) : s' = { s with trace := s'.trace } := by
  rcases unify_cases hs a b with ⟨_, _, heq⟩ | ⟨_, _, _, _, _, _, _, _, heq⟩
  · rw [heq] at h
    cases h
  · rw [heq] at h
    cases h
    rfl

/-- What is left of a session in which one error was reported. -/
def Reported (s : Session) (error : TypeError) (origin : NodeId) (s' : Session) : Prop :=
  s' = { s with reports := s.reports ++ [.ofError error origin], trace := s'.trace }

theorem reported_of_unify_error (hs : s.subst.Acyclic) {a b : Ty} {error : TypeError}
    {s' : Session} (h : s.unify a b = .ok (.error error, s')) (origin : NodeId) :
    s.Reported error origin (s'.reportError error origin) := by
  rw [eq_of_unify_error hs h]
  rfl

/-- A failed unification gives back the same bindings and the same trail.  A
check that fails for this reason adds one report, and a call has also drawn its
variable; nothing else changes but the trace. -/
theorem failed_unification_atomic (hreach : s.Reachable) :
    (∀ a b error s', s.unify a b = .ok (.error error, s') →
      s'.subst = s.subst ∧ s' = { s with trace := s'.trace }) ∧
    (∀ expected actual origin error failed,
      s.unify expected actual = .ok (.error error, failed) →
      ∃ s', s.expect expected actual origin = .ok (.error, s') ∧ s.Reported error origin s') ∧
    (∀ operator traitName lhs rhs origin error failed, operator.trait? = some traitName →
      s.unify lhs.ty rhs.ty = .ok (.error error, failed) →
      ∃ s', s.binary operator lhs rhs origin = .ok (.error, s') ∧ s.Reported error origin s') ∧
    (∀ pool callee args origin v drawn pool' error failed,
      s.freshVar pool = .ok (v, drawn, pool') →
      drawn.unify callee (.func (Ty.eraseAll args) (.var v)) = .ok (.error error, failed) →
      ∃ s', s.call pool callee args origin = .ok (.error, s', pool') ∧
        { s with supply := drawn.supply }.Reported error origin s') := by
  have hs := hreach.wellFormed.acyclic
  refine ⟨?_, ?_, ?_, ?_⟩
  · intro a b error s' h
    have heq := eq_of_unify_error hs h
    exact ⟨by rw [heq], heq⟩
  · intro expected actual origin error failed h
    refine ⟨failed.reportError error origin, ?_, reported_of_unify_error hs h origin⟩
    rw [expect, h]
    rfl
  · intro operator traitName lhs rhs origin error failed htrait h
    refine ⟨failed.reportError error origin, ?_, reported_of_unify_error hs h origin⟩
    rw [binary, operatorType, htrait]
    show (s.traitType operator traitName lhs.ty rhs.ty origin >>= _) = _
    rw [traitType, h]
    rfl
  · intro pool callee args origin v drawn pool' error failed hdraw h
    obtain ⟨⟨w, supply, other⟩, _, hdrawn⟩ := exists_of_bind_eq_ok hdraw
    cases hdrawn
    have hreported := reported_of_unify_error (s := { s with supply }) hs h origin
    refine ⟨failed.reportError error origin, ?_, hreported⟩
    rw [call, hdraw]
    show (unify _ _ _ >>= _) = _
    rw [h]
    rfl

/-- A unification binds two variables before it fails. -/
theorem failed_unification_atomic_after_two_bindings : ∃ s s' : Session, s.Reachable ∧
    (∃ error, s.unify (.func [.var 0, .var 1] .num) (.func [.num, .str] .bool) =
      .ok (.error error, s')) ∧
    s'.traceLines.map TraceLine.action =
      [.decompose, .bind, .bind, .error, .rollback] ∧
    s'.subst = s.subst := by
  have hrun : ∃ s s' : Session, s.Reachable ∧
      (∃ error, s.unify (.func [.var 0, .var 1] .num) (.func [.num, .str] .bool) =
        .ok (.error error, s')) ∧
      s'.traceLines.map TraceLine.action =
        [.decompose, .bind, .bind, .error, .rollback] :=
    ⟨_, _,
      reachable_of_run Registry.builtin { trace := true, varOffset := some 0 } ⟨0⟩ [.freshVars 2]
        rfl rfl,
      ⟨_, rfl⟩, rfl⟩
  obtain ⟨s, s', hreach, ⟨error, hfail⟩, htrace⟩ := hrun
  have hatomic := (failed_unification_atomic hreach).1 _ _ _ _ hfail
  exact ⟨s, s', hreach, ⟨error, hfail⟩, htrace, hatomic.1⟩

end TypeInference.Session

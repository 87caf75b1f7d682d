/-
# What a unification leaves alone

Unifying two types binds variables that are left in the two applied types, and
none besides.  A type in which none of those is left is applied to the same type
afterwards, however the unification ended.

Bindings that are there stay as they are.  Undoing takes back only what the same
unification has added, so that this holds of every operation, of the parts of
closing a scope and of ending a session, and of whole runs.
-/

import TypeInference.Proofs.Session.OpenType
import TypeInference.Proofs.Unify.Confinement

namespace TypeInference.Session

open Unify

variable {s : Session}

/-- A unification keeps to the variables that are left in its two types. -/
theorem exists_unify_growsWithin (hs : s.subst.Acyclic) (a b : Ty) :
    ∃ outcome s', s.unify a b = .ok (outcome, s') ∧
      Subst.GrowsWithin { v | OccursIn s.subst v (a, b) } s.subst s'.subst := by
  rcases unify_cases hs a b with ⟨p, hmoves, heq⟩ | ⟨error, _, _, _, _, _, _, _, heq⟩
  · refine ⟨_, _, heq, Moves.growsWithin hmoves hs ?_⟩
    intro pair hpair v hv
    rw [List.mem_singleton] at hpair
    exact hpair ▸ hv
  · exact ⟨_, _, heq, .refl _ _⟩

theorem mem_freeVars_of_applied {a b : Ty} {v : VarId} :
    v ∈ (a.instantiate s.subst.image).freeVars ++ (b.instantiate s.subst.image).freeVars ↔
      OccursIn s.subst v (a, b) := by
  rw [List.mem_append, Ty.mem_freeVars, Ty.mem_freeVars, OccursIn]

/-- Unifying two types keeps every binding, binds only variables that are left in
the two applied types, to types with no others, and does not touch a type in which
none of them is left.  Whatever the session comes to, within an operation or after
it, no binding is changed or removed. -/
theorem unify_binds_only_its_variables (hreach : s.Reachable) :
    (∀ a b, ∃ x y outcome s', s.apply a = .ok x ∧ s.apply b = .ok y ∧
      s.unify a b = .ok (outcome, s') ∧
      (∀ v ty, s.subst.lookup v = some ty → s'.subst.lookup v = some ty) ∧
      (∀ v ty, s.subst.lookup v = none → s'.subst.lookup v = some ty →
        v ∈ x.freeVars ++ y.freeVars ∧ ∀ w ∈ ty.freeVars, w ∈ x.freeVars ++ y.freeVars) ∧
      (∀ source applied, s.apply source = .ok applied →
        (∀ v ∈ applied.freeVars, v ∉ x.freeVars ++ y.freeVars) →
        s'.apply source = .ok applied)) ∧
    (∀ s', Onward s s' →
      ∀ v ty, s.subst.lookup v = some ty → s'.subst.lookup v = some ty) ∧
    (∀ settled last, s.settle = .ok (settled, last) →
      ∀ v ty, s.subst.lookup v = some ty → last.subst.lookup v = some ty) := by
  have hs := hreach.wellFormed.acyclic
  refine ⟨fun a b => ?_, ?_, ?_⟩
  · obtain ⟨outcome, s', hunify, hwithin⟩ := exists_unify_growsWithin hs a b
    refine ⟨_, _, outcome, s', hs.apply_eq_ok a, hs.apply_eq_ok b, hunify, ?_, ?_, ?_⟩
    · exact fun v ty hv => hwithin.grows.lookup_eq_some hv
    · intro v ty hunbound hbound
      obtain ⟨hv, hparts⟩ := hwithin.added v ty hunbound hbound
      refine ⟨mem_freeVars_of_applied.mpr hv, fun w hw => mem_freeVars_of_applied.mpr ?_⟩
      exact hparts w (Ty.mem_freeVars.mp hw)
    · intro source applied happly hout
      rw [apply, hs.apply_eq_ok] at happly
      cases happly
      rw [apply, (hwithin.grows.acyclic hs).apply_eq_ok]
      refine congrArg Except.ok (hwithin.instantiate_image_eq hs fun v hv hmem => ?_)
      exact hout v (Ty.mem_freeVars.mpr hv) (mem_freeVars_of_applied.mpr hmem)
  · exact fun s' honward v ty hv => (honward.grows hs).lookup_eq_some hv
  · exact fun settled last h v ty hv => ((delivers_settle hs).of_eq_ok h).lookup_eq_some hv

/-- Three variables are bound, the last one met only through the binding of another;
the function that was bound before and a function on another variable are as they were. -/
theorem unify_binds_only_its_variables_shared : ∃ s s' : Session, s.Reachable ∧
    s.unify (.func [.var 0] (.var 2)) (.func [.func [.num] (.var 3)] .str) = .ok (.ok (), s') ∧
    s.subst.trail = [0] ∧ s'.subst.trail = [3, 2, 1, 0] ∧
    s'.subst.lookup 0 = some (.func [.var 1] (.var 2)) ∧
    s'.apply (.func [.var 4] .bool) = .ok (.func [.var 4] .bool) := by
  have hrun : ∃ s s' : Session, s.Reachable ∧
      s.unify (.func [.var 0] (.var 2)) (.func [.func [.num] (.var 3)] .str) = .ok (.ok (), s') ∧
      s.subst.trail = [0] ∧ s'.subst.trail = [3, 2, 1, 0] ∧
      s.subst.lookup 0 = some (.func [.var 1] (.var 2)) ∧
      s.apply (.func [.var 0] (.var 2)) = .ok (.func [.func [.var 1] (.var 2)] (.var 2)) ∧
      s.apply (.func [.func [.num] (.var 3)] .str) = .ok (.func [.func [.num] (.var 3)] .str) ∧
      s.apply (.func [.var 4] .bool) = .ok (.func [.var 4] .bool) :=
    ⟨_, _, reachable_of_run Registry.builtin { varOffset := some 0 } ⟨0⟩
      [.freshVars 5, .unify (.var 0) (.func [.var 1] (.var 2))] rfl rfl,
      rfl, rfl, rfl, rfl, rfl, rfl, rfl⟩
  obtain ⟨s, s', hreach, hunify, hbefore, hafter, hbound, ha, hb, hother⟩ := hrun
  obtain ⟨x, y, outcome, t, hx, hy, ht, hkept, _, hsame⟩ :=
    (unify_binds_only_its_variables hreach).1 (.func [.var 0] (.var 2))
      (.func [.func [.num] (.var 3)] .str)
  rw [ha] at hx
  rw [hb] at hy
  rw [hunify] at ht
  cases hx
  cases hy
  cases ht
  exact ⟨s, s', hreach, hunify, hbefore, hafter, hkept 0 _ hbound, hsame _ _ hother (by decide)⟩

end TypeInference.Session

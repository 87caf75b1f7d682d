/-
# Reachable sessions

A session is reachable when it comes from a new session by commands and by the
steps that end a session.  Each command may be carried out in any workspace
around the session: nothing is assumed of the symbol table it is used with, nor
of the numbers that other sessions have taken from the pool in between.

On every reachable session the substitution is well formed, because operations
only make it grow.  No operation therefore ends in a fault that its caller did
not cause.
-/

import TypeInference.Proofs.Session.Operation

namespace TypeInference.Session

open Relation

/-- One operation on a session, or one part of ending it. -/
inductive Step : Session → Session → Prop
  | exec {w w' : Workspace} {command : Command} {reply : Reply}
      (h : w.exec command = .ok (reply, w')) : Step w.session w'.session
  | dropObligations (s : Session) : Step s { s with obligations := [] }
  | settleObligation {s s' : Session} {obligation : Obligation}
      (h : s.settleObligation obligation = .ok s') : Step s s'
  | settleExprs {s s' : Session} {entries settled : List (ExprId × Inferred)}
      (h : s.settleExprs entries = .ok (settled, s')) : Step s s'

/-- The second session is a later state of the first. -/
abbrev Later : Session → Session → Prop := ReflTransGen Step

/-- A state that a session can come to. -/
def Reachable (s : Session) : Prop :=
  ∃ registry options pool first pool',
    Session.new registry options pool = .ok (first, pool') ∧ Later first s

theorem Reachable.later {s s' : Session} (h : s.Reachable) (hlater : Later s s') :
    s'.Reachable := by
  obtain ⟨registry, options, pool, first, pool', hnew, hfirst⟩ := h
  exact ⟨registry, options, pool, first, pool', hnew, hfirst.trans hlater⟩

/-- What holds of every new session and is kept by every step holds of every reachable
session. -/
theorem Reachable.holds {P : Session → Prop} {s : Session} (h : s.Reachable)
    (new : ∀ {registry options pool first pool'},
      Session.new registry options pool = .ok (first, pool') → P first)
    (step : ∀ {s s' : Session}, s.Reachable → Step s s' → P s → P s') : P s := by
  obtain ⟨registry, options, pool, first, pool', hnew, hlater⟩ := h
  induction hlater with
  | refl => exact new hnew
  | tail hlater hstep ih =>
      exact step ⟨registry, options, pool, first, pool', hnew, hlater⟩ hstep ih

theorem later_of_run {w w' : Workspace} {commands : List Command} {replies : List Reply}
    (h : w.run commands = .ok (replies, w')) : Later w.session w'.session := by
  induction commands generalizing w replies with
  | nil =>
      cases h
      exact .refl
  | cons command rest ih =>
      obtain ⟨⟨reply, middle⟩, hexec, h⟩ := exists_of_bind_eq_ok h
      obtain ⟨⟨others, last⟩, hrun, h⟩ := exists_of_bind_eq_ok h
      cases h
      exact .head (.exec hexec) (ih hrun)

/-- Whatever a run of commands leads to is reachable. -/
theorem reachable_of_run (registry : Registry) (options : SessionOptions) (pool : VarPool)
    (commands : List Command) {w w' : Workspace} {replies : List Reply}
    (hnew : Workspace.new registry options pool = .ok w)
    (hrun : w.run commands = .ok (replies, w')) : w'.session.Reachable := by
  obtain ⟨⟨first, pool'⟩, hsession, h⟩ := exists_of_bind_eq_ok hnew
  cases h
  have hfirst : first.Reachable := ⟨registry, options, pool, first, pool', hsession, .refl⟩
  exact hfirst.later (later_of_run hrun)

theorem Step.grows {s s' : Session} (h : Step s s') (hs : s.subst.Acyclic) :
    s.subst.Grows s'.subst := by
  cases h with
  | exec h => exact (Workspace.delivers_exec hs _).of_eq_ok h
  | dropObligations => exact .refl
  | settleObligation h => exact (delivers_settleObligation hs _).of_eq_ok h
  | settleExprs h => exact (delivers_settleExprs hs _).of_eq_ok h

/-- Between two states of a session the substitution has grown. -/
theorem Later.grows {s s' : Session} (h : Later s s') (hs : s.subst.Acyclic) :
    s.subst.Grows s'.subst := by
  induction h with
  | refl => exact .refl
  | tail _ hstep ih => exact ih.trans (hstep.grows (ih.acyclic hs))

theorem Reachable.wellFormed {s : Session} (h : s.Reachable) : s.subst.WellFormed := by
  obtain ⟨registry, options, pool, first, pool', hnew, hlater⟩ := h
  obtain ⟨supply, _, h⟩ := exists_of_bind_eq_ok hnew
  cases h
  exact (hlater.grows Subst.wellFormed_empty.acyclic).wellFormed Subst.wellFormed_empty

/-- On every reachable session the substitution is well formed, every query has
an answer, and no command nor any part of ending the session stops at a fault
that the caller did not cause. -/
theorem reachable_wellFormed_no_internal_fault {s : Session} (h : s.Reachable) :
    s.subst.WellFormed ∧
    (∀ ty, (∃ head, s.subst.resolve ty = .ok head) ∧ ∃ applied, s.apply ty = .ok applied) ∧
    (∀ a b, ∃ answer, s.consistent a b = .ok answer) ∧
    (∀ (w : Workspace) command fault, w.session = s → w.exec command = .error fault →
      fault.isInternal = false) ∧
    (∀ obligation fault, s.settleObligation obligation = .error fault →
      fault.isInternal = false) ∧
    (∀ entries fault, s.settleExprs entries = .error fault → fault.isInternal = false) ∧
    (∀ fault, s.finish = .error fault → fault.isInternal = false) := by
  have hwf := h.wellFormed
  have hs := hwf.acyclic
  refine ⟨hwf, fun ty => ⟨?_, ?_⟩, fun a b => ?_, ?_, ?_, ?_, ?_⟩
  · obtain ⟨head, hhead, _⟩ := hs.exists_resolve_eq_ok ty
    exact ⟨head, hhead⟩
  · exact ⟨_, hs.apply_eq_ok ty⟩
  · rw [consistent]
    cases hattempt : Unify.run s.subst a b with
    | solved p => exact ⟨true, rfl⟩
    | failed error p => exact ⟨false, rfl⟩
    | broken fault => exact absurd hattempt (Unify.run_ne_broken hs a b fault)
  · rintro w command fault rfl hfault
    exact (Workspace.delivers_exec hs command).of_eq_error hfault
  · exact fun obligation fault => (delivers_settleObligation hs obligation).of_eq_error
  · exact fun entries fault => (delivers_settleExprs hs entries).of_eq_error
  · exact fun fault => (delivers_finish hs).of_eq_error

/-- A unification binds two variables, and a variable is then expected to be a
function that takes it. -/
theorem reachable_wellFormed_after_failed_expect : ∃ s : Session, s.Reachable ∧
    s.subst.trail = [1, 0] ∧ s.reports.length = 1 ∧ s.subst.WellFormed := by
  have hreach : ∃ s : Session, s.Reachable ∧ s.subst.trail = [1, 0] ∧ s.reports.length = 1 :=
    ⟨_, reachable_of_run Registry.builtin { varOffset := some 0 } ⟨0⟩
      [.freshVars 3,
       .unify (.func [.var 0] (.var 1)) (.func [.const .num (.bool true)] (.func [.var 2] .bool)),
       .expect (.var 1) (.func [.var 1] .bool) (.expr 0)] rfl rfl, rfl, rfl⟩
  obtain ⟨s, hs, htrail, hreports⟩ := hreach
  exact ⟨s, hs, htrail, hreports, (reachable_wellFormed_no_internal_fault hs).1⟩

end TypeInference.Session
